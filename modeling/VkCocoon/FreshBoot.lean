import VkCocoon.Adopt
import VkCocoon.Bringup

/-!
# A fresh boot across a restart

`CreatePod` of a `mode: run` pod from its `Runtime.Run` to the ready intent, together with what the
apiserver has of the pod. The provider may be killed after any step; the next one has the copy of the
apiserver and the VM of the runtime, and resumes the work they say is owed.
-/

namespace VkCocoon
open Lib Tables

/-- A managed pod that is booted from its image. -/
structure Pod.BootsFresh (pod : Pod) : Prop where
  managed : pod.spec.managed = true
  notMacos : pod.spec.os ≠ .macos
  modeRun : pod.modeRun = true
  noSource : pod.cloneSource = false
  noRestore : pod.restoreFromHibernate = false

/-- Another object of the same pod; the annotations the provider writes may differ. -/
def Pod.CopyOf (copy pod : Pod) : Prop :=
  ∃ n l m i c, copy = { pod with ref := n, lifecycle := l, vmid := m, ip := i, postClone := c }

/-! ### Until the provider is killed -/

/-- The call, the wait it has started, and the pod as the apiserver has it. -/
structure FirstBoot where
  world : World
  call : Bring
  wait : Option Tail
  api : Pod

inductive FirstBootEvent where
  | call (a : Answer)
  | wait (a : Answer)
  /-- the lifecycle patch of the pod goes through -/
  | flush
deriving DecidableEq, Repr

def PodThread.tail? : PodThread → Option Tail
  | .tail t => some t
  | _ => none

def PodThread.call? : PodThread → Option Bring
  | .bring b => some b
  | _ => none

namespace FirstBoot

/-- What the patch of a step leaves at the apiserver. A patch is best effort: its error is logged. -/
def patched (s : FirstBoot) (r : Reply) : Pod :=
  if !r.lands || s.world.tables.supersededLocked s.call.pod.key s.call.pod.uid then s.api
  else
    match s.call.pc with
    | .patch v _ => { s.api with vmid := v.id, ip := v.ip }
    | .markBootDone _ => { s.api with postClone := .done }
    | _ => s.api

def step (s : FirstBoot) : FirstBootEvent → Option FirstBoot
  | .call a =>
    (s.call.step s.world a).map fun x =>
      { world := x.1
        call := { s.call with pc := x.2.1 }
        wait := (x.2.2.findSome? PodThread.tail?).or s.wait
        api := s.patched a.reply }
  | .wait a =>
    match s.wait with
    | none => none
    | some t =>
      -- the ready intent ends the boot
      if t.pc = .ready then none
      else
        (t.job.step s.world a t.pc).map fun x =>
          { s with
            world := x.1
            wait := some { t with pc := x.2 }
            api := match t.pc with
              | .markSAC _ => if a.reply.lands then { s.api with postClone := .failed } else s.api
              | _ => s.api }
  | .flush =>
    some { s with api := { s.api with
      lifecycle := ((s.world.tables.pods.get s.call.pod.key).map (·.lifecycle)).getD s.api.lifecycle } }

end FirstBoot

def freshBoot : Machine FirstBoot FirstBootEvent := ⟨FirstBoot.step⟩

/-- `CreatePod` is about to call `Runtime.Run`. -/
structure FirstBoot.Begins (s : FirstBoot) : Prop where
  fresh : s.call.pod.BootsFresh
  copy : s.api.CopyOf s.call.pod
  pc : s.call.pc = .bringUp false
  noWait : s.wait = none

/-- The record in which a later provider finds the VM that the call has launched. -/
structure FirstBoot.Finds (s : FirstBoot) (v : VM) : Prop where
  id : v.id = s.call.launched.id
  name : v.name = s.call.launched.name
  networkConfigs : v.networkConfigs = s.call.launched.networkConfigs
  notMacos : isMacosVM v = false

/-! ### After the restart -/

/-- A call of the restarted provider, or the goroutine that it becomes, and the tails it has started. -/
structure Resumption where
  world : World
  call : Bring
  tails : List Tail

def resumption : Machine Resumption Answer :=
  ⟨fun s a => (s.call.step s.world a).map fun x =>
    { world := x.1
      call := (x.2.2.findSome? PodThread.call?).getD { s.call with pc := x.2.1 }
      tails := s.tails ++ x.2.2.filterMap PodThread.tail? }⟩

section Restart
variable {S : Type} [DecidableEq S] (snapshot : LifecycleStatus → S)

/-- Where work for the VM `v` of the pod `api` is resumed: `dispatchOwedWork` at the end of
`StartupReconcile`, and `CreatePod`. -/
inductive Restarts (api : Pod) (v : VM) : Resumption → Prop where
  | startup {t : Tables} {w : World} {b : Bring} {a : Findings} (hpod : t.pods.get api.key = none)
      (hvm : t.vmsByPod.get api.key = none) (hid : ∀ u, a.vmByID = some u → u = v)
      (hname : ∀ u, a.vmByName = some u → u = v)
      (ht : w.tables = reconcilePod snapshot t api a) (hb : b.pod = api) (hpc : b.pc = .resume) :
      Restarts api v ⟨w, b, []⟩
  | create {w : World} {b : Bring}
      (hindex : ∀ u, w.tables.vmsByName.get api.spec.vmName = some u → u = v) (hb : b.pod = api)
      (hpc : b.pc = .track) : Restarts api v ⟨w, b, []⟩

/-- The points of `runPostCloneSetup`, from the marker it sets to its end. -/
def TailPC.inFixup : TailPC → Bool
  | .markRunning | .exec _ _ | .markDone | .markExhausted _ | .failExhausted _ => true
  | _ => false

/-- A tail by itself; the others may change the world between its steps. -/
def tailRun (job : Job) : Machine TailPC (World × Answer) :=
  ⟨fun pc e => (job.step e.1 e.2 pc).map (·.2)⟩

/-- A resumed tail waits for the lease of a boot, and no run of it comes to the fixup. -/
structure Tail.WaitsForBoot (t : Tail) : Prop where
  wait : t.job.wait = .boot
  noFixup : ∀ es pc, (tailRun t.job).exec t.pc es = some pc → pc.inFixup = false

/-- Whatever is resumed for `v` only waits. -/
def ResumesWait (api : Pod) (v : VM) : Prop :=
  ∀ s, Restarts snapshot api v s → ∀ as s', resumption.exec s as = some s' →
    ∀ t ∈ s'.tails, t.job.resumed = true → t.WaitsForBoot

end Restart

/-- The persisted facts say that no fixup is owed: the marker is `done` (or `failed`), or there is
neither a marker of a fixup that has begun nor a plan for one. A pod that is deleted or that asks to be
hibernated owes none either. -/
def Pod.OwesNoFixup (api : Pod) (v : VM) : Prop :=
  api.deletionTimestamp = true ∨ api.hibernate = true ∨ api.postClone = .done ∨ api.postClone = .failed ∨
    api.postClone ≠ .running ∧ postCloneNeeded api.spec v = false

/-! ### What the restarted provider reads of the pod -/

/-- The tracked pod of the key reads as `api`, but for the lifecycle, the VMID and the IP. A hibernated
pod whose VM is gone has lost its marker too. -/
def Tables.Shows (api : Pod) (t : Tables) : Prop :=
  ∀ p, t.pods.get api.key = some p → ∃ l m i c,
    p = { api with lifecycle := l, vmid := m, ip := i, postClone := c } ∧
      (api.hibernate = true ∨ c = api.postClone)

section Shows
variable {api : Pod} {v : VM} {t t' : Tables}

theorem Tables.Shows.of_eq (h : t.Shows api) (hp : t'.pods = t.pods) : t'.Shows api := by
  intro p
  rw [hp]
  exact h p

theorem Tables.Shows.of_none (h : t.pods.get api.key = none) : t.Shows api := by
  intro p hp
  rw [h] at hp
  cases hp

theorem Tables.Shows.podNow (h : t.Shows api) : ∃ l m i c,
    t.podNow api = { api with lifecycle := l, vmid := m, ip := i, postClone := c } ∧
      (api.hibernate = true ∨ c = api.postClone) := by
  unfold Tables.podNow
  cases hp : t.pods.get api.key with
  | none => exact ⟨_, _, _, _, rfl, Or.inr rfl⟩
  | some p =>
    dsimp only
    split
    · exact h p hp
    · exact ⟨_, _, _, _, rfl, Or.inr rfl⟩

theorem shows_track (t : Tables) (api : Pod) (w : Option VM) : (t.trackPodLocked api w).Shows api := by
  intro p hp
  obtain ⟨l, hl⟩ := t.trackPodLocked_pods api w
  rw [hl, if_pos rfl] at hp
  cases hp
  exact ⟨l, _, _, _, rfl, Or.inr rfl⟩

theorem Tables.Shows.lifecycle (h : t.Shows api) (q : Pod) (state : LifecycleState) (message : String) :
    (t.applyLifecycleLocked q state message).1.Shows api := by
  cases hr : t.refusesLifecycle q ⟨state, t.stampedGeneration q, message⟩ with
  | true =>
    rw [applyLifecycleLocked_of_refused _ _ _ _ hr]
    exact h
  | false =>
    rw [applyLifecycleLocked_of_accepted _ _ _ _ hr]
    cases hq : t.pods.get q.key with
    | none => exact h.of_eq rfl
    | some tracked =>
      intro p hp
      have hp : (t.pods.set q.key _).get api.key = some p := hp
      rw [GoMap.get_set] at hp
      split at hp
      next hk =>
        cases hp
        obtain ⟨l, m, i, c, rfl, hc⟩ := h tracked (hk ▸ hq)
        exact ⟨_, m, i, c, rfl, hc⟩
      next => exact h p hp

theorem Tables.Shows.stamp (h : t.Shows api) (vmid : VMID) (ip : String) :
    (t.applyVMRuntime api vmid ip).1.Shows api := by
  unfold Tables.applyVMRuntime
  split
  · exact h
  · unfold mutatePod
    cases hp : t.pods.get api.key with
    | none => exact h
    | some tracked =>
      dsimp only
      split
      · intro p hp'
        have hp' : (t.pods.set api.key _).get api.key = some p := hp'
        rw [GoMap.get_set_self] at hp'
        cases hp'
        obtain ⟨l, m, i, c, rfl, hc⟩ := h tracked hp
        exact ⟨l, _, _, c, rfl, hc⟩
      · exact h

theorem Tables.Shows.detach (h : t.Shows api) (uid : UID) (w : Option VM) :
    (t.detachIncarnation api.key uid w).1.Shows api := by
  obtain ⟨names, heq | ⟨-, -, heq⟩⟩ := t.detachIncarnation_cases api.key uid w
  · rw [heq]
    exact h.of_eq rfl
  · rw [heq]
    refine .of_none ?_
    show (t.untrackLocked api.key).pods.get api.key = none
    rw [untrackLocked_pods, if_pos rfl]

theorem shows_trackPodIncarnation (h : t.Shows api) (v : VM) :
    (t.trackPodIncarnation api v).1.Shows api := by
  unfold Tables.trackPodIncarnation
  split
  · unfold Tables.indexOrphanByNameLocked
    split
    · exact h
    · exact h.of_eq rfl
  · exact shows_track t api (some v)

theorem Tables.Shows.bind (h : t.Shows api) (v : VM) (nameTaken : Bool) :
    (bindRuntime t api v nameTaken).1.Shows api := by
  have htrack := shows_trackPodIncarnation h v
  unfold bindRuntime
  split
  next heq => rwa [heq] at htrack
  next t₁ heq =>
    rw [heq] at htrack
    have hstamp := Tables.Shows.stamp htrack v.id v.ip
    split
    next heq₂ =>
      rw [heq₂] at hstamp
      exact hstamp.detach _ _
    next heq₂ =>
      rw [heq₂] at hstamp
      split
      · exact hstamp.detach _ _
      · exact hstamp

theorem Tables.Shows.seed (h : t.Shows api) (q : Pod) : (t.seedLifecycleIntentFromPod q).Shows api := by
  unfold seedLifecycleIntentFromPod
  split
  · exact h
  · exact h.of_eq rfl

section Startup
variable {S : Type} [DecidableEq S] {snapshot : LifecycleStatus → S} {a : Findings}

theorem Tables.Shows.endFlush (h : t.Shows api) (q : Pod) (sent : LifecycleStatus) (f : FlushEnd) :
    (endFlush snapshot t q sent f).Shows api := by
  cases f with
  | recorded =>
    show (t.recordLifecycleFlushed snapshot q.key q.uid sent).Shows api
    unfold Tables.recordLifecycleFlushed
    repeat' split
    all_goals exact h.of_eq rfl
  | superseded =>
    show (t.dropSupersededLifecycle snapshot q.key q.uid sent).Shows api
    unfold Tables.dropSupersededLifecycle
    repeat' split
    all_goals exact h.of_eq rfl
  | pending => exact h

theorem Tables.Shows.markReady (h : t.Shows api) (q : Pod) (f : FlushEnd) :
    (markReadyPublished snapshot t q f).Shows api := by
  have happ := h.lifecycle q .ready ""
  unfold markReadyPublished
  dsimp only
  split
  · exact happ.endFlush q _ f
  · exact happ

theorem Tables.Shows.liftLocked (h : t.Shows api) (q : Pod) :
    (t.liftHibernateFailureLocked q).1.Shows api := by
  unfold Tables.liftHibernateFailureLocked
  split
  · exact h
  · exact h.lifecycle q .creating ""

theorem Tables.Shows.lift (h : t.Shows api) (q : Pod) (i : Option Bool) (f : FlushEnd) :
    (liftHibernateFailure snapshot t q i f).1.Shows api := by
  have hlift := h.liftLocked q
  unfold liftHibernateFailure
  split
  · exact h
  · split
    · exact h
    · exact h
    · split
      next heq => rwa [heq] at hlift
      next heq =>
        rw [heq] at hlift
        exact hlift.endFlush q _ f

theorem Tables.Shows.liftCleared (h : t.Shows api) (q : Pod) (a : Findings) :
    (liftClearedHibernateFailure snapshot t q a).Shows api := by
  have hlift : (liftHibernateFailure snapshot t q a.liftInspect a.liftFlush).1.Shows api :=
    h.lift q a.liftInspect a.liftFlush
  unfold liftClearedHibernateFailure
  split
  · exact h
  · split
    next t₁ heq =>
      rw [heq] at hlift
      unfold Tables.retryOpLater
      dsimp only
      split
      · exact hlift.of_eq rfl
      · exact hlift
    next heq => rwa [heq] at hlift
    next heq =>
      rw [heq] at hlift
      exact hlift.markReady q a.readyFlush

/- `StartupReconcile` tracks the copy it got. -/
theorem reconcilePod_shows (hnone : t.pods.get api.key = none) :
    (reconcilePod snapshot t api a).Shows api := by
  have hnew : t.Shows api := .of_none hnone
  have hseed : ∀ (t₁ : Tables) (w : Option VM), (trackAndSeed t₁ api w).Shows api := fun t₁ w =>
    (shows_track t₁ api w).seed _
  unfold reconcilePod
  split
  · exact hseed _ _
  · split
    · split
      · unfold reconcileNoVMID
        split
        · exact hseed _ _
        · exact hnew
      next v _ =>
        have hbind := hnew.bind v a.nameTaken
        split
        next heq =>
          rw [heq] at hbind
          exact hbind.seed api
        next heq =>
          rw [heq] at hbind
          unfold reconcileNoVMID
          split
          · exact hseed _ _
          · exact hbind
    · split
      · split
        next hhib =>
          -- the stale annotations are cleared with the marker
          intro p hp
          obtain ⟨l, hl⟩ := (t.clearRuntimeAnnotations api).trackPodLocked_pods
            { api with vmid := "", ip := "", postClone := .absent } none
          have hp : ((t.clearRuntimeAnnotations api).trackPodLocked
              { api with vmid := "", ip := "", postClone := .absent } none).pods.get api.key = some p := by
            unfold trackAndSeed seedLifecycleIntentFromPod at hp
            split at hp <;> exact hp
          rw [hl, if_pos rfl] at hp
          cases hp
          exact ⟨l, _, _, _, rfl, Or.inl hhib⟩
        next => exact hnew
      · exact (hseed t _).liftCleared api a

/- The VM it binds is the one that was found. -/
theorem reconcilePod_binds (hm : api.spec.managed = true) (hmac : isMacosSpec api.spec = false)
    (hvm : t.vmsByPod.get api.key = none) (hid : ∀ u, a.vmByID = some u → u = v)
    (hname : ∀ u, a.vmByName = some u → u = v) {u : VM}
    (hu : (reconcilePod snapshot t api a).vmsByPod.get api.key = some u) : u = v := by
  have htakes : ∀ x, Takes api a x → x = v := by
    intro x hx
    cases hx with
    | annotated _ hun => exact absurd hm (by rw [hun]; decide)
    | named _ hx => exact hname x hx
    | listed _ _ hx => exact hid x hx
    | guest hguest => exact absurd hguest (by rw [hmac]; decide)
  have hrec : (reconcilePod snapshot t api a).Records
      (fun key x => t.vmsByPod.get key = some x ∨ x = v) fun _ => True :=
    (reconcilePod_adopts t api a).records (fun x hx => Or.inr (htakes x hx)) (fun _ _ => trivial)
      ⟨fun _ _ hx => Or.inl hx, fun _ _ _ => trivial⟩
  rcases hrec.bound api.key u hu with hold | hnew
  · rw [hvm] at hold
    cases hold
  · exact hnew

end Startup
end Shows

/-! ### No fixup is owed -/

section Wait
variable {api : Pod} {v : VM}

theorem dropNIC_needed {spec : VMSpec} (h : shouldDropNICBeforeHibernate spec = true) (v : VM) :
    postCloneNeeded spec v = true := by
  unfold shouldDropNICBeforeHibernate at h
  rw [Bool.and_eq_true] at h
  unfold postCloneNeeded
  rw [h.2]
  rfl

/- What is owed then is a hibernate, a snapshot or the wait. -/
theorem owedOpFor_of_owesNoFixup (h : api.OwesNoFixup v) {l : Option LifecycleStatus} {m : VMID}
    {i : String} {c : PostCloneState} (hc : api.hibernate = true ∨ c = api.postClone)
    (hm : api.spec.managed = true) {op : ResumeOp}
    (hop : owedOpFor { api with lifecycle := l, vmid := m, ip := i, postClone := c } (some v) = some op) :
    op ≠ .postClone ∧ op ≠ .classifyNIC := by
  unfold owedOpFor at hop
  simp only [hm, Bool.not_true, Bool.false_eq_true, if_false] at hop
  split at hop
  · cases hop
  next hdel =>
    split at hop
    · cases hop
      exact ⟨by decide, by decide⟩
    next hhib =>
      split at hop
      · split at hop <;> cases hop
        exact ⟨by decide, by decide⟩
      · have hmark : api.postClone = .done ∨ api.postClone = .failed ∨
            api.postClone ≠ .running ∧ postCloneNeeded api.spec v = false := by
          rcases h with h | h | h
          · exact absurd (by rw [h]; rfl) hdel
          · exact absurd h hhib
          · exact h
        obtain rfl : c = api.postClone := hc.resolve_left hhib
        split at hop
        next => cases hop
        next hrun =>
          rw [hrun] at hmark
          rcases hmark with h | h | ⟨h, -⟩
          · cases h
          · cases h
          · exact absurd rfl h
        next =>
          cases hop
          exact ⟨by decide, by decide⟩
        next hnf _ hnd =>
          have hplan : postCloneNeeded api.spec v = false :=
            ((hmark.resolve_left hnd).resolve_left hnf).2
          split at hop
          next hdrop =>
            rw [dropNIC_needed hdrop v] at hplan
            cases hplan
          next =>
            rw [hplan] at hop
            cases hop
            exact ⟨by decide, by decide⟩

/-- What the call is at, with what it reads there. -/
def Fits (api : Pod) (v : VM) (w : World) : BringPC → Prop
  | .resume => (∀ u, w.tables.vmsByPod.get api.key = some u → u = v) ∧ w.tables.Shows api
  | .track => ∀ u, w.tables.vmsByName.get api.spec.vmName = some u → u = v
  | .markCreating | .index =>
    (∀ u, w.tables.vmsByName.get api.spec.vmName = some u → u = v) ∧ w.tables.Shows api
  | .adoptInspect u _ | .owed u => u = v ∧ w.tables.Shows api
  | .bind u site | .stamp u site | .patch u site =>
    site ≠ .wake ∧ (site = .adopt → u = v ∧ w.tables.Shows api)
  | .claim _ op => op ≠ .postClone ∧ op ≠ .classifyNIC
  -- a boot of its own, a resumed hibernate, and the ends
  | .dropIndex _ | .evidence | .bringUp _ | .seed _ _ | .dispatch _ _ | .readyAtOnce | .markBootDone _
  | .bootWait _ | .fail _ | .failCreate | .detach _ | .resumeStart _ | .resumeFail _ | .resumeRetry
  | .releaseResume | .markReady _ | .done => True
  | _ => False

/-- The call that goes on after a step. -/
def Bring.after (b : Bring) (pc' : BringPC) (new : List PodThread) : Bring :=
  (new.findSome? PodThread.call?).getD { b with pc := pc' }

theorem owed_fits {t : Tables} (hfresh : api.BootsFresh) (howes : api.OwesNoFixup v)
    (hshows : t.Shows api) {w : World} (other : BringPC) (hother : Fits api v w other) :
    Fits api v w (((owedOpFor (t.podNow api) (some v)).map (.claim v)).getD other) := by
  obtain ⟨l, m, i, c, hpod, hc⟩ := hshows.podNow
  rw [hpod]
  cases hop : owedOpFor { api with lifecycle := l, vmid := m, ip := i, postClone := c } (some v) with
  | none => exact hother
  | some op => exact owedOpFor_of_owesNoFixup howes hc hfresh.managed hop

theorem Pod.BootsFresh.not_cloned (h : api.BootsFresh) : isClonedBoot api = false := by
  simp [isClonedBoot, h.modeRun, h.noSource]

theorem Job.step_inFixup {job : Job} {w w' : World} {a : Answer} {pc pc' : TailPC}
    (hpc : pc.inFixup = false) (h : job.step w a pc = some (w', pc')) : pc'.inFixup = false := by
  have hcut : ∀ next : TailPC, next.inFixup = false → (unlessCut w a next).inFixup = false := by
    intro next hnext
    unfold unlessCut
    split
    · rfl
    · exact hnext
  have hresolved : ∀ ip, (resolved w a ip).inFixup = false := by
    intro ip
    apply hcut
    repeat' split
    all_goals rfl
  cases pc with
  | markRunning | exec attempt errs | markDone | markExhausted errs | failExhausted errs => cases hpc
  | done => cases h
  | sac =>
    simp only [step] at h
    split at h <;> cases h
    · split <;> rfl
    · rfl
  | check =>
    simp only [step] at h
    cases h
    split <;> rfl
  | lookup =>
    simp only [step] at h
    split at h <;> cases h
    · split
      · rfl
      · exact hcut _ rfl
    · exact hcut _ rfl
  | lease seen =>
    simp only [step] at h
    split at h <;> cases h
    · rfl
    · exact hresolved _
  | store seen ip =>
    cases h
    exact hresolved _
  | markSAC err | failSAC err | ready | timeout | leave =>
    cases h
    rfl

theorem Tail.waits_of_entry {t : Tail} (hwait : t.job.wait = .boot) (hpc : t.pc.inFixup = false) :
    t.WaitsForBoot := by
  have hstep : ∀ (pc : TailPC) (e : World × Answer) (pc' : TailPC), pc.inFixup = false → True →
      (tailRun t.job).step pc e = some pc' → pc'.inFixup = false := by
    intro pc e pc' hpc _ h
    obtain ⟨x, hx, rfl⟩ := Option.map_eq_some_iff.mp h
    exact Job.step_inFixup hpc hx
  exact ⟨hwait, fun es pc hexec =>
    (tailRun t.job).exec_invariant hstep hpc ((tailRun t.job).guarded_true t.pc es) hexec⟩

theorem readyWait_inFixup (job : Job) : job.readyWait.inFixup = false := by
  unfold Job.readyWait
  split <;> rfl

/- A goroutine that a claim of the owed work becomes. -/
theorem resumed_fits {w : World} {b : Bring} {u : VM} {op : ResumeOp} (hfresh : api.BootsFresh)
    (hb : b.pod = api) (hop : op ≠ .postClone ∧ op ≠ .classifyNIC) :
    (∀ b', PodThread.call? (b.resumed u op) = some b' → b'.pod = api ∧ Fits api v w b'.pc) ∧
      ∀ t, PodThread.tail? (b.resumed u op) = some t → t.WaitsForBoot := by
  cases op with
  | postClone => exact absurd rfl hop.1
  | classifyNIC => exact absurd rfl hop.2
  | hibernate | snapshot =>
    refine ⟨fun b' h => ?_, fun t h => (by cases h)⟩
    cases h
    exact ⟨hb, trivial⟩
  | readyWait =>
    simp only [Bring.resumed, hb, hfresh.managed, hfresh.not_cloned, if_true]
    refine ⟨fun b' h => (by cases h), fun t h => ?_⟩
    cases h
    exact Tail.waits_of_entry rfl (readyWait_inFixup _)

/- A step that starts no goroutine. -/
theorem quiet_fits {w' : World} {b : Bring} {pc' : BringPC} (hb : b.pod = api)
    (hfit : Fits api v w' pc') :
    ((b.after pc' []).pod = api ∧ Fits api v w' (b.after pc' []).pc) ∧
      ∀ t ∈ ([] : List PodThread).filterMap PodThread.tail?, t.job.resumed = true → t.WaitsForBoot :=
  ⟨⟨hb, hfit⟩, fun _ ht => absurd ht List.not_mem_nil⟩

/- A step that starts a tail of its own. -/
theorem tail_fits {w w' : World} {b : Bring} {pc' : BringPC} {t : Tail} (hb : b.pod = api)
    (hfit : Fits api v w' pc') (ht : t.job.resumed = false) :
    ((b.after pc' (w.goBackground (.tail t))).pod = api ∧
      Fits api v w' (b.after pc' (w.goBackground (.tail t))).pc) ∧
      ∀ u ∈ (w.goBackground (.tail t)).filterMap PodThread.tail?, u.job.resumed = true → u.WaitsForBoot := by
  unfold World.goBackground
  split
  · exact quiet_fits hb hfit
  · refine ⟨⟨hb, hfit⟩, fun u hu hres => ?_⟩
    have hu : u = t := List.mem_singleton.mp hu
    rw [hu, ht] at hres
    cases hres

theorem fits_step {w w' : World} {a : Answer} {b : Bring} {pc' : BringPC} {new : List PodThread}
    (hfresh : api.BootsFresh) (howes : api.OwesNoFixup v) (hb : b.pod = api) (hfit : Fits api v w b.pc)
    (h : b.step w a = some (w', pc', new)) :
    ((b.after pc' new).pod = api ∧ Fits api v w' (b.after pc' new).pc) ∧
      ∀ t ∈ new.filterMap PodThread.tail?, t.job.resumed = true → t.WaitsForBoot := by
  unfold Bring.step at h
  cases hpc : b.pc with
  | resume =>
    simp only [hpc, hb] at h
    rw [hpc] at hfit
    obtain ⟨hvm, hshows⟩ := hfit
    split at h
    · cases h
      exact quiet_fits hb trivial
    next u hu =>
      cases h
      obtain rfl := hvm u hu
      exact quiet_fits hb (owed_fits hfresh howes hshows .done trivial)
  | track =>
    simp only [hpc, hb] at h
    rw [hpc] at hfit
    have hnames := w.tables.trackPodUnlessDeleting_vmsByName api
    unfold Tables.trackPodUnlessDeleting at h hnames
    split at h
    · cases h
      exact quiet_fits hb trivial
    next hdel =>
      cases h
      rw [if_neg hdel] at hnames
      refine quiet_fits hb ⟨?_, shows_track _ _ _⟩
      simp only
      rw [hnames]
      exact hfit
  | markCreating =>
    simp only [hpc, hb] at h
    rw [hpc] at hfit
    cases h
    refine quiet_fits hb ⟨?_, hfit.2.lifecycle _ _ _⟩
    simp only [World.onTables_tables, Tables.applyLifecycleLocked_vmsByName]
    exact hfit.1
  | index =>
    simp only [hpc, hb] at h
    rw [hpc] at hfit
    cases h
    refine quiet_fits hb ?_
    split
    next existing hexisting =>
      split
      · trivial
      · exact ⟨hfit.1 existing hexisting, hfit.2⟩
    next => trivial
  | adoptInspect existing attempt =>
    simp only [hpc, hb] at h
    rw [hpc] at hfit
    cases h
    refine quiet_fits hb ?_
    split
    · exact ⟨by decide, fun _ => hfit⟩
    · trivial
    · split
      · exact hfit
      · trivial
  | bind u site =>
    simp only [hpc, hb] at h
    rw [hpc] at hfit
    obtain ⟨hsite, hadopt⟩ := hfit
    have hshows : site = .adopt → (w.tables.trackPodIncarnation api u).1.Shows api :=
      fun hs => shows_trackPodIncarnation (hadopt hs).2 u
    cases h
    refine quiet_fits hb ?_
    split
    · exact ⟨hsite, fun hs => ⟨(hadopt hs).1, hshows hs⟩⟩
    · trivial
  | stamp u site =>
    simp only [hpc, hb] at h
    rw [hpc] at hfit
    obtain ⟨hsite, hadopt⟩ := hfit
    cases h
    refine quiet_fits hb ?_
    split
    · exact ⟨hsite, fun hs => ⟨(hadopt hs).1, (hadopt hs).2.stamp _ _⟩⟩
    · trivial
  | patch u site =>
    simp only [hpc] at h
    rw [hpc] at hfit
    obtain ⟨hsite, hadopt⟩ := hfit
    cases h
    refine quiet_fits hb ?_
    split
    · trivial
    · cases site with
      | adopt => exact hadopt rfl
      | launch restoring => trivial
      | wake => exact absurd rfl hsite
  | owed u =>
    simp only [hpc, hb] at h
    rw [hpc] at hfit
    obtain ⟨rfl, hshows⟩ := hfit
    cases h
    exact quiet_fits hb (owed_fits hfresh howes hshows (.markReady false) trivial)
  | claim u op =>
    simp only [hpc, hb] at h
    rw [hpc] at hfit
    split at h
    next tables _ =>
      cases h
      obtain ⟨hcall, htail⟩ := resumed_fits (w := { w with tables := tables }) (u := u) hfresh hb hfit
      unfold World.goBackground
      split
      · exact quiet_fits hb trivial
      · refine ⟨?_, fun t ht _ => ?_⟩
        · cases hres : PodThread.call? (b.resumed u op) with
          | none =>
            simp only [Bring.after, List.findSome?_cons, hres, List.findSome?_nil, Option.getD_none]
            exact ⟨hb, trivial⟩
          | some b' =>
            simp only [Bring.after, List.findSome?_cons, hres, Option.getD_some]
            exact hcall b' hres
        · obtain ⟨x, hx, htx⟩ := List.mem_filterMap.mp ht
          rw [List.mem_singleton.mp hx] at htx
          exact htail t htx
    next =>
      cases h
      exact quiet_fits hb trivial
  | dispatch u restoring =>
    simp only [hpc, Bring.dispatched, hb, hfresh.managed, hfresh.not_cloned, Bool.not_true,
      Bool.false_eq_true, if_false] at h
    split at h
    · cases h
      unfold Bring.restored
      split
      · exact tail_fits hb trivial rfl
      · exact tail_fits hb trivial rfl
    · cases h
      exact quiet_fits hb trivial
  | bootWait u =>
    simp only [hpc] at h
    cases h
    exact tail_fits hb trivial rfl
  | bringUp restoring =>
    simp only [hpc, hb, hfresh.managed, Bool.not_true, Bool.false_eq_true, if_false] at h
    split at h <;> cases h <;> exact quiet_fits hb trivial
  | seed u restoring =>
    simp only [hpc] at h
    cases h
    exact quiet_fits hb ⟨fun hs => (by cases hs), fun hs => (by cases hs)⟩
  | resumeStart u =>
    simp only [hpc] at h
    split at h
    · cases h
      exact ⟨⟨hb, trivial⟩, fun t ht => by cases ht⟩
    · cases h
      exact quiet_fits hb trivial
  | evidence =>
    simp only [hpc] at h
    cases h
    refine quiet_fits hb ?_
    repeat' split
    all_goals trivial
  | readyAtOnce | markReady resumed =>
    simp only [hpc] at h
    cases h
    refine quiet_fits hb ?_
    split <;> trivial
  | done =>
    rw [hpc] at h
    cases h
  | dropIndex | markBootDone | fail | failCreate | resumeFail | resumeRetry | releaseResume | detach =>
    simp only [hpc] at h
    cases h
    exact quiet_fits hb trivial
  | _ =>
    rw [hpc] at hfit
    cases hfit

theorem restarts_fits {S : Type} [DecidableEq S] {snapshot : LifecycleStatus → S} {s : Resumption}
    (hfresh : api.BootsFresh) (h : Restarts snapshot api v s) :
    s.call.pod = api ∧ Fits api v s.world s.call.pc ∧ s.tails = [] := by
  cases h with
  | @startup t w b a hpod hvm hid hname ht hb hpc =>
    have hmac : isMacosSpec api.spec = false := by
      simp [isMacosSpec, hfresh.notMacos]
    refine ⟨hb, ?_, rfl⟩
    simp only [hpc]
    refine ⟨fun u hu => ?_, ?_⟩
    · rw [ht] at hu
      exact reconcilePod_binds hfresh.managed hmac hvm hid hname hu
    · rw [ht]
      exact reconcilePod_shows hpod
  | create hindex hb hpc =>
    refine ⟨hb, ?_, rfl⟩
    simp only [hpc]
    exact hindex

/-- When nothing says that a fixup is owed, whatever is resumed waits for the lease of a boot. -/
theorem resumesWait_of_owesNoFixup {S : Type} [DecidableEq S] (snapshot : LifecycleStatus → S)
    (hfresh : api.BootsFresh) (howes : api.OwesNoFixup v) : ResumesWait snapshot api v := by
  intro s hs as s' hexec
  obtain ⟨hb, hfit, htails⟩ := restarts_fits hfresh hs
  have hstep : ∀ (s : Resumption) (a : Answer) (s' : Resumption),
      ((s.call.pod = api ∧ Fits api v s.world s.call.pc) ∧
        ∀ t ∈ s.tails, t.job.resumed = true → t.WaitsForBoot) → True → resumption.step s a = some s' →
      (s'.call.pod = api ∧ Fits api v s'.world s'.call.pc) ∧
        ∀ t ∈ s'.tails, t.job.resumed = true → t.WaitsForBoot := by
    intro s a s' hs _ h
    obtain ⟨⟨w', pc', new⟩, hcall, rfl⟩ := Option.map_eq_some_iff.mp h
    obtain ⟨hfit', hnew⟩ := fits_step hfresh howes hs.1.1 hs.1.2 hcall
    refine ⟨hfit', fun t ht => ?_⟩
    rcases List.mem_append.mp ht with ht | ht
    · exact hs.2 t ht
    · exact hnew t ht
  have hinv := resumption.exec_invariant hstep
    ⟨⟨hb, hfit⟩, fun t ht => by rw [htails] at ht; cases ht⟩ (resumption.guarded_true s as) hexec
  exact hinv.2

/-! ### A fixup is owed -/

/- The tables of a provider that has just found `v` in the runtime's list. -/
def restartTables (api : Pod) (v : VM) : Tables :=
  { Tables.new with vmsByName := GoMap.empty.set api.spec.vmName v }

def createdTables (api : Pod) (v : VM) : Tables :=
  (((restartTables api v).trackPodLocked api none).applyLifecycleLocked api .creating "").1

def adoptedTables (api : Pod) (v : VM) : Tables :=
  (((createdTables api v).trackPodLocked api (some v)).applyVMRuntime api v.id v.ip).1

def restartWorld (api : Pod) (v : VM) : World where
  tables := restartTables api v
  runtime := GoMap.empty.set v.id v
  localSnapshots := .empty
  hibernateTags := .empty
  nextSnap := 0
  apiPods := .empty
  leases := .empty
  closed := false
  hasPusher := false
  hasRegistry := false

def okReply : Answer := ⟨.ok, 0, 0, false, false⟩

theorem createdTables_reads (api : Pod) (v : VM) :
    (createdTables api v).vmsByName.get api.spec.vmName = some v ∧
      (createdTables api v).deletingLocked api.key = false ∧
      (createdTables api v).supersededLocked api.key api.uid = false ∧
      (createdTables api v).lifecycleIntent.get api.key =
        some ⟨api.uid, ⟨.creating, api.generation, ""⟩, none⟩ ∧
      (createdTables api v).resumedOps = .empty := by
  simp [createdTables, restartTables, Tables.trackPodLocked, Tables.reassertLifecycleLocked, Tables.new,
    Tables.applyLifecycleLocked, Tables.refusesLifecycle, Tables.supersededLocked, Tables.stampedGeneration,
    LifecycleStatus.apply, Tables.deletingLocked, GoMap.has]

theorem adoptedTables_reads (api : Pod) (v : VM) :
    ((createdTables api v).trackPodLocked api (some v)).applyVMRuntime api v.id v.ip =
        (adoptedTables api v, true) ∧
      (adoptedTables api v).podNow api =
        { api with lifecycle := some ⟨.creating, api.generation, ""⟩, vmid := v.id, ip := v.ip } ∧
      (adoptedTables api v).resumedOps = .empty := by
  obtain ⟨-, -, -, hintent, hops⟩ := createdTables_reads api v
  simp [adoptedTables, Tables.trackPodLocked, Tables.reassertLifecycleLocked, hintent, LifecycleStatus.apply,
    Tables.setVMLocked, Tables.applyVMRuntime, Tables.supersededLocked, Tables.mutatePod, Tables.podNow, hops]

theorem resumption_step {s : Resumption} {a : Answer} {w' : World} {pc' : BringPC}
    (h : s.call.step s.world a = some (w', pc', [])) :
    resumption.step s a = some ⟨w', { s.call with pc := pc' }, s.tails⟩ := by
  simp [resumption, h]

/- The first calls of an adoption, none of which fails. -/
theorem create_adopts (api : Pod) (v : VM) (nic : NetworkConfig) (hv : isMacosVM v = false) :
    resumption.exec ⟨restartWorld api v, ⟨api, v, nic, .track⟩, []⟩ (List.replicate 7 okReply) =
      some ⟨{ restartWorld api v with tables := adoptedTables api v }, ⟨api, v, nic, .owed v⟩, []⟩ := by
  obtain ⟨hindex, hfree, hown, -, -⟩ := createdTables_reads api v
  obtain ⟨hstamp, -, -⟩ := adoptedTables_reads api v
  have hexec : ∀ {s s' : Resumption} {n : ℕ}, resumption.step s okReply = some s' →
      resumption.exec s (List.replicate (n + 1) okReply) = resumption.exec s' (List.replicate n okReply) := by
    intro s s' n h
    rw [List.replicate_succ, Machine.exec_cons, h]
    rfl
  let at_ (t : Tables) (pc : BringPC) : Resumption :=
    ⟨{ restartWorld api v with tables := t }, ⟨api, v, nic, pc⟩, []⟩
  have htrack : resumption.step (at_ (restartTables api v) .track) okReply =
      some (at_ ((restartTables api v).trackPodLocked api none) .markCreating) := by
    apply resumption_step
    rfl
  have hmark : resumption.step (at_ ((restartTables api v).trackPodLocked api none) .markCreating) okReply =
      some (at_ (createdTables api v) .index) := by
    apply resumption_step
    rfl
  have hlook : resumption.step (at_ (createdTables api v) .index) okReply =
      some (at_ (createdTables api v) (.adoptInspect v 0)) := by
    apply resumption_step
    simp only [Bring.step, at_, hindex, hv]
    rfl
  have hinspect : resumption.step (at_ (createdTables api v) (.adoptInspect v 0)) okReply =
      some (at_ (createdTables api v) (.bind v .adopt)) := by
    apply resumption_step
    have hlive : (restartWorld api v).runtime.get v.id = some v := GoMap.get_set_self _ _ _
    simp only [Bring.step, at_, World.inspect, okReply, Reply.err, hlive]
  have hbind : resumption.step (at_ (createdTables api v) (.bind v .adopt)) okReply =
      some (at_ ((createdTables api v).trackPodLocked api (some v)) (.stamp v .adopt)) := by
    apply resumption_step
    simp only [Bring.step, at_, Tables.trackPodIncarnation, hfree, hown]
    rfl
  have happly : resumption.step (at_ ((createdTables api v).trackPodLocked api (some v)) (.stamp v .adopt))
      okReply = some (at_ (adoptedTables api v) (.patch v .adopt)) := by
    apply resumption_step
    simp only [Bring.step, at_, hstamp]
    rfl
  have hpatch : resumption.step (at_ (adoptedTables api v) (.patch v .adopt)) okReply =
      some (at_ (adoptedTables api v) (.owed v)) := by
    apply resumption_step
    rfl
  have hstart : (⟨restartWorld api v, ⟨api, v, nic, .track⟩, []⟩ : Resumption) =
      at_ (restartTables api v) .track := rfl
  rw [hstart, hexec htrack, hexec hmark, hexec hlook, hexec hinspect, hexec hbind, hexec happly, hexec hpatch]
  rfl

theorem owedOpFor_of_fixup (hm : api.spec.managed = true) (hv : isMacosVM v = false)
    (h : ¬ api.OwesNoFixup v) {status : LifecycleStatus} (hs : status.state = .creating) {m : VMID}
    {i : String} :
    owedOpFor { api with lifecycle := some status, vmid := m, ip := i } (some v) = some .postClone ∨
      owedOpFor { api with lifecycle := some status, vmid := m, ip := i } (some v) = some .classifyNIC := by
  simp only [Pod.OwesNoFixup, not_or, not_and, Bool.not_eq_true, Bool.not_eq_false] at h
  obtain ⟨hdel, hhib, hdone, hfailed, hplan⟩ := h
  unfold owedOpFor
  simp only [hdel, hv, hm, hhib, lifecycleCreating, hs, beq_self_eq_true, Bool.or_self, Bool.not_true,
    Bool.false_eq_true, if_false]
  cases hmark : api.postClone with
  | failed => exact absurd hmark hfailed
  | done => exact absurd hmark hdone
  | running => exact Or.inl rfl
  | absent | other text =>
    have hneeded : postCloneNeeded api.spec v = true := hplan (by rw [hmark]; exact fun he => by cases he)
    simp only [hneeded, if_true]
    split
    · exact Or.inr rfl
    · exact Or.inl rfl

/- A fixup that seems owed is resumed by the first adoption in which no call fails. -/
theorem not_resumesWait {S : Type} [DecidableEq S] (snapshot : LifecycleStatus → S)
    (hm : api.spec.managed = true) (hv : isMacosVM v = false) (h : ¬ api.OwesNoFixup v) :
    ¬ ResumesWait snapshot api v := by
  intro hwait
  obtain ⟨-, hpod, hops⟩ := adoptedTables_reads api v
  let b : Bring := ⟨api, v, ⟨"", none⟩, .track⟩
  let w : World := { restartWorld api v with tables := adoptedTables api v }
  let claimed : World := { w with tables := { adoptedTables api v with
    resumedOps := (adoptedTables api v).resumedOps.set api.key () } }
  have hrestarts : Restarts snapshot api v ⟨restartWorld api v, b, []⟩ := by
    refine .create (fun u hu => ?_) rfl rfl
    have hu : (GoMap.empty.set api.spec.vmName v).get api.spec.vmName = some u := hu
    rw [GoMap.get_set_self] at hu
    exact (Option.some.inj hu).symm
  have hadopts := create_adopts api v ⟨"", none⟩ hv
  have howed : ∀ op, owedOpFor ((adoptedTables api v).podNow api) (some v) = some op →
      resumption.step ⟨w, { b with pc := .owed v }, []⟩ okReply =
        some ⟨w, { b with pc := .claim v op }, []⟩ := by
    intro op hop
    apply resumption_step
    simp only [Bring.step, w, b, hop, Option.map_some, Option.getD_some]
  have hclaim : ∀ op, Bring.step w okReply { b with pc := .claim v op } =
      some (claimed, .done, [({ b with pc := .claim v op } : Bring).resumed v op]) := by
    intro op
    have hfree : (adoptedTables api v).claimResume api.key =
        ({ adoptedTables api v with resumedOps := (adoptedTables api v).resumedOps.set api.key () }, true) := by
      unfold Tables.claimResume
      rw [if_neg (by simp [hops, GoMap.has])]
    simp only [Bring.step, w, b, hfree]
    rfl
  -- a tail that some continuation of the run starts, and that waits for another lease
  have hbad : ∀ as s' t, resumption.exec ⟨w, { b with pc := .owed v }, []⟩ as = some s' → t ∈ s'.tails →
      t.job.resumed = true → t.job.wait ≠ .boot → False := by
    intro as s' t hexec ht hres hne
    have hrun : resumption.exec ⟨restartWorld api v, b, []⟩ (List.replicate 7 okReply ++ as) = some s' :=
      (resumption.exec_append_some).mpr ⟨_, hadopts, hexec⟩
    exact hne (hwait _ hrestarts _ _ hrun t ht hres).wait
  rw [hpod] at howed
  have hcreating : (⟨.creating, api.generation, ""⟩ : LifecycleStatus).state = .creating := rfl
  let fixup : Tail := ⟨⟨api, v, .clone, true⟩, Job.postClone ⟨api, v, .clone, true⟩⟩
  have hclone : fixup.job.wait ≠ .boot := fun he => IPWait.noConfusion he
  rcases @owedOpFor_of_fixup api v hm hv h ⟨.creating, api.generation, ""⟩ rfl v.id v.ip with hop | hop
  · have hexec : resumption.exec ⟨w, { b with pc := .owed v }, []⟩ [okReply, okReply] =
        some ⟨claimed, { b with pc := .done }, [fixup]⟩ := by
      rw [Machine.exec_cons, howed _ hop, Option.bind_some, Machine.exec_cons]
      simp only [resumption, hclaim, Option.map_some, Option.bind_some]
      rfl
    exact hbad _ _ fixup hexec (List.mem_singleton.mpr rfl) rfl hclone
  · -- without hibernated state the evidence says that the VM is a clone
    have hexec : resumption.exec ⟨w, { b with pc := .owed v }, []⟩ [okReply, okReply, okReply] =
        some ⟨claimed, { b with pc := .done }, [fixup]⟩ := by
      rw [Machine.exec_cons, howed _ hop, Option.bind_some, Machine.exec_cons]
      simp only [resumption, hclaim, Option.map_some, Option.bind_some]
      rfl
    exact hbad _ _ fixup hexec (List.mem_singleton.mpr rfl) rfl hclone

/-! ### The whole run -/

theorem Pod.CopyOf.fresh {copy pod : Pod} (h : copy.CopyOf pod) (hpod : pod.BootsFresh) :
    copy.BootsFresh := by
  obtain ⟨n, l, m, i, c, rfl⟩ := h
  exact ⟨hpod.managed, hpod.notMacos, hpod.modeRun, hpod.noSource, hpod.noRestore⟩

theorem Pod.CopyOf.update {copy pod : Pod} (h : copy.CopyOf pod) (l : Option LifecycleStatus) (m : VMID)
    (i : String) (c : PostCloneState) :
    Pod.CopyOf { copy with lifecycle := l, vmid := m, ip := i, postClone := c } pod := by
  obtain ⟨n, l', m', i', c', rfl⟩ := h
  exact ⟨n, l, m, i, c, rfl⟩

theorem FirstBoot.patched_copy {s : FirstBoot} {pod : Pod} (h : s.api.CopyOf pod) (r : Reply) :
    (s.patched r).CopyOf pod := by
  unfold FirstBoot.patched
  split
  · exact h
  · split
    · exact h.update _ _ _ _
    · exact h.update _ _ _ _
    · exact h

/- The apiserver keeps a copy of the pod whose boot it is. -/
theorem FirstBoot.step_copy {pod : Pod} (s : FirstBoot) (e : FirstBootEvent) (s' : FirstBoot)
    (hs : s.call.pod = pod ∧ s.api.CopyOf pod) (h : s.step e = some s') :
    s'.call.pod = pod ∧ s'.api.CopyOf pod := by
  cases e with
  | call a =>
    obtain ⟨x, -, rfl⟩ := Option.map_eq_some_iff.mp h
    exact ⟨hs.1, FirstBoot.patched_copy hs.2 a.reply⟩
  | wait a =>
    simp only [FirstBoot.step] at h
    split at h
    · cases h
    · split at h
      · cases h
      · obtain ⟨x, -, rfl⟩ := Option.map_eq_some_iff.mp h
        refine ⟨hs.1, ?_⟩
        dsimp only
        split
        · split
          · exact hs.2.update _ _ _ _
          · exact hs.2
        · exact hs.2
  | flush =>
    cases h
    exact ⟨hs.1, hs.2.update _ _ _ _⟩

end Wait

/-- Whenever the provider is killed during a fresh boot, the work that is resumed for the VM is the
wait for the lease of a boot, and no fixup, exactly when the copy of the apiserver owes no fixup. -/
theorem fresh_boot_resumes_wait_iff {S : Type} [DecidableEq S] (snapshot : LifecycleStatus → S)
    (s killed : FirstBoot) (es : List FirstBootEvent) (hs : s.Begins)
    (hexec : freshBoot.exec s es = some killed) (v : VM) (hv : killed.Finds v) :
    ResumesWait snapshot killed.api v ↔ killed.api.OwesNoFixup v := by
  have hcopy : killed.call.pod = s.call.pod ∧ killed.api.CopyOf s.call.pod :=
    freshBoot.exec_invariant (fun s e s' hs _ h => FirstBoot.step_copy s e s' hs h) ⟨rfl, hs.copy⟩
      (freshBoot.guarded_true s es) hexec
  have hfresh : killed.api.BootsFresh := hcopy.2.fresh hs.fresh
  constructor
  · intro hwait
    by_contra howes
    exact not_resumesWait snapshot hfresh.managed hv.notMacos howes hwait
  · exact resumesWait_of_owesNoFixup snapshot hfresh

/- A Linux pod on firecracker, at its `Runtime.Run`. -/
def runPod : Pod := { samplePod with spec := ⟨"vk-a", true, .other "linux", .firecracker⟩ }

def runBoot : FirstBoot where
  world := { sampleWorld with tables := Tables.new.trackPodLocked runPod none, runtime := .empty }
  call := ⟨runPod, sampleVM, ⟨"", none⟩, .bringUp false⟩
  wait := none
  api := runPod

theorem runBoot_begins : runBoot.Begins :=
  ⟨⟨rfl, by decide, rfl, rfl, rfl⟩, ⟨0, none, "", "", .absent, rfl⟩, rfl, rfl⟩

/- Killed once the marker is at the apiserver. -/
theorem fresh_boot_resumes_wait_marked : ∃ killed,
    freshBoot.exec runBoot (List.replicate 7 (.call okReply)) = some killed ∧
      ResumesWait (id : LifecycleStatus → LifecycleStatus) killed.api sampleVM := by
  obtain ⟨killed, hexec, hfacts⟩ : ∃ killed,
      freshBoot.exec runBoot (List.replicate 7 (.call okReply)) = some killed ∧
        killed.api.postClone = .done ∧ killed.call.launched = sampleVM := by
    have hmap : (freshBoot.exec runBoot (List.replicate 7 (.call okReply))).map
        (fun c => (c.api.postClone, c.call.launched)) = some (.done, sampleVM) := by decide +kernel
    obtain ⟨c, hc, heq⟩ := Option.map_eq_some_iff.mp hmap
    exact ⟨c, hc, (Prod.mk.inj heq).1, (Prod.mk.inj heq).2⟩
  have hfinds : killed.Finds sampleVM := by
    refine ⟨?_, ?_, ?_, by decide⟩ <;> rw [hfacts.2]
  exact ⟨killed, hexec, (fresh_boot_resumes_wait_iff id runBoot killed _ runBoot_begins hexec sampleVM
    hfinds).mpr (Or.inr (Or.inr (Or.inl hfacts.1)))⟩

/- Killed between `Runtime.Run` and the patch of the marker. -/
theorem fresh_boot_resumes_fixup :
    ¬ ∀ (s killed : FirstBoot) (es : List FirstBootEvent) (v : VM), s.Begins →
      freshBoot.exec s es = some killed → killed.Finds v →
      ResumesWait (id : LifecycleStatus → LifecycleStatus) killed.api v := by
  intro h
  have hmap : (freshBoot.exec runBoot [.call okReply]).map
      (fun c => (c.api, c.call.launched)) = some (runPod, sampleVM) := by decide +kernel
  obtain ⟨killed, hexec, heq⟩ := Option.map_eq_some_iff.mp hmap
  obtain ⟨hapi, hlaunched⟩ := Prod.mk.inj heq
  have hfinds : killed.Finds sampleVM := by
    refine ⟨?_, ?_, ?_, by decide⟩ <;> rw [hlaunched]
  have hwait := h runBoot killed _ sampleVM runBoot_begins hexec hfinds
  rw [hapi] at hwait
  have howes : ¬ runPod.OwesNoFixup sampleVM := by
    simp [Pod.OwesNoFixup, runPod, samplePod, postCloneNeeded]
  exact not_resumesWait id rfl (by decide) howes hwait

end VkCocoon
