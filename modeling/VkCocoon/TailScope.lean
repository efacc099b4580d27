import VkCocoon.Bringup

/-!
# A tail speaks for its own VM

Hibernate and wake swap the VM of a pod and keep its UID and generation. The lease wait of
a tail checks the VM under the lock before it writes. The post-clone fixup and the SAC pass
before it are fenced by the UID alone, so they speak for whatever VM is bound.
-/

namespace VkCocoon
open Lib Tables

/-- The points before the lease wait, whose writes do not look at the VM. -/
def TailPC.fixup : TailPC → Bool
  | .markRunning | .exec _ _ | .markDone | .markExhausted _ | .failExhausted _ | .sac | .markSAC _
  | .failSAC _ => true
  | _ => false

namespace PodThread

def job : PodThread → Option Job
  | .tail t => some t.job
  | _ => none

/-- The job of a tail in its fixup or SAC pass. -/
def fixing : PodThread → Option Job
  | .tail t => if t.pc.fixup then some t.job else none
  | _ => none

end PodThread

/-- The ID of the VM bound to a key. -/
def Tables.boundID (t : Tables) (key : Key) : Option VMID := (t.vmsByPod.get key).map (·.id)

namespace Job
variable (job : Job)

def Bound (t : Tables) : Prop := t.boundID job.pod.key = some job.v.id

/-- The intent of the key or the post-clone marker of its tracked pod changes. -/
def Speaks (t t' : Tables) : Prop :=
  t'.lifecycleIntent.get job.pod.key ≠ t.lifecycleIntent.get job.pod.key ∨
  (t'.pods.get job.pod.key).map (·.postClone) ≠ (t.pods.get job.pod.key).map (·.postClone)

end Job

abbrev PodConfig := Config World PodThread
abbrev PodEvent := PoolEvent PodThread Answer PodAround

section TailScope
variable {S : Type} [DecidableEq S] (snapshot : LifecycleStatus → S)

/-- A step of a tail that speaks is taken while its VM is bound. -/
def SpeaksForOwnVM (c : PodConfig) (e : PodEvent) : Prop :=
  match e with
  | .run i _ => ∀ t ∈ c.threads[i]?, ∀ job ∈ t.job, ∀ c' ∈ (podThreads snapshot).next c e,
      job.Speaks c.shared.tables c'.shared.tables → job.Bound c.shared.tables
  | _ => True

/-- No step changes the VM of a key while a tail of it is in its fixup or SAC pass, and a tail
that begins with one starts while its VM is bound. -/
def KeepsVM (c : PodConfig) (e : PodEvent) : Prop :=
  ∀ c' ∈ (podThreads snapshot).next c e,
    (∀ t ∈ c.threads, ∀ job ∈ t.fixing,
      c'.shared.tables.boundID job.pod.key = c.shared.tables.boundID job.pod.key) ∧
    ∀ t ∈ c'.threads.drop c.threads.length, ∀ job ∈ t.fixing, job.Bound c'.shared.tables

instance (job : Job) (t : Tables) : Decidable (job.Bound t) := by
  unfold Job.Bound
  infer_instance

instance (job : Job) (t t' : Tables) : Decidable (job.Speaks t t') := by
  unfold Job.Speaks
  infer_instance

instance (c : PodConfig) : (e : PodEvent) → Decidable (SpeaksForOwnVM snapshot c e)
  | .run i a => inferInstanceAs (Decidable (∀ t ∈ c.threads[i]?, ∀ job ∈ t.job,
      ∀ c' ∈ (podThreads snapshot).next c (.run i a),
        job.Speaks c.shared.tables c'.shared.tables → job.Bound c.shared.tables))
  | .start _ | .env _ => .isTrue trivial

instance (c : PodConfig) (e : PodEvent) : Decidable (KeepsVM snapshot c e) := by
  unfold KeepsVM
  infer_instance

variable {snapshot} {w w' : World} {a : Answer} {job : Job} {pc pc' : TailPC}

/-! ### What a step of a tail does -/

/- A tail does not go back to the fixup. -/
theorem step_fixup (h : job.step w a pc = some (w', pc')) (hf : pc'.fixup = true) :
    pc.fixup = true := by
  have hcut : ∀ x : TailPC, x.fixup = false → (Job.unlessCut w a x).fixup = false := by
    intro x hx
    unfold Job.unlessCut
    split
    · rfl
    · exact hx
  have hres : ∀ ip, (Job.resolved w a ip).fixup = false := by
    intro ip
    refine hcut _ ?_
    repeat' split
    all_goals rfl
  cases pc with
  | check =>
    cases h
    split at hf <;> cases hf
  | lookup =>
    simp only [Job.step] at h
    split at h <;> cases h
    · split at hf
      · cases hf
      · rw [hcut _ rfl] at hf
        cases hf
    · rw [hcut _ rfl] at hf
      cases hf
  | lease seen =>
    simp only [Job.step] at h
    split at h <;> cases h
    · cases hf
    · rw [hres] at hf
      cases hf
  | store seen ip =>
    cases h
    rw [hres] at hf
    cases hf
  | ready | timeout | leave =>
    cases h
    cases hf
  | done => cases h
  | _ => rfl

theorem updateTrackedVM_pods (t : Tables) (key : Key) (id : VMID) (m : VMMutation) :
    (t.updateTrackedVM key id m).1.pods = t.pods ∧
    (t.updateTrackedVM key id m).1.lifecycleIntent = t.lifecycleIntent := by
  unfold updateTrackedVM
  split
  · exact ⟨rfl, rfl⟩
  · split
    · exact ⟨rfl, rfl⟩
    · exact ⟨rfl, rfl⟩

/- After the fixup a tail speaks in the lease wait alone, which checks the VM. -/
theorem bound_of_speaks (h : job.step w a pc = some (w', pc')) (hf : pc.fixup = false)
    (hs : job.Speaks w.tables w'.tables) : job.Bound w.tables := by
  have hsame : ∀ {t : Tables}, t.pods = w.tables.pods → t.lifecycleIntent = w.tables.lifecycleIntent →
      ¬ job.Speaks w.tables t := by
    intro t hp hi hs
    unfold Job.Speaks at hs
    rw [hp, hi] at hs
    exact hs.elim (· rfl) (· rfl)
  have hwake : ∀ state message,
      job.Speaks w.tables (w.tables.setLifecycleStateForWake job.pod job.v.id state message).1 →
      job.Bound w.tables := by
    intro state message hs
    unfold setLifecycleStateForWake at hs
    split at hs
    next hc =>
      rw [Bool.and_eq_true] at hc
      unfold Job.Bound boundID
      cases hv : w.tables.vmsByPod.get job.pod.key with
      | none =>
        rw [hv] at hc
        cases hc.2
      | some v =>
        rw [hv, Option.any_some, beq_iff_eq] at hc
        rw [Option.map_some, hc.2]
    next => exact (hsame rfl rfl hs).elim
  cases pc with
  | check =>
    cases h
    exact (hsame rfl rfl hs).elim
  | lookup | lease =>
    simp only [Job.step] at h
    split at h <;> cases h <;> exact (hsame rfl rfl hs).elim
  | store seen ip =>
    cases h
    obtain ⟨hp, hi⟩ := updateTrackedVM_pods w.tables job.pod.key seen.id (.ip ip)
    exact (hsame hp hi hs).elim
  | ready =>
    cases h
    exact hwake _ _ hs
  | timeout =>
    cases h
    exact hwake _ _ hs
  | leave =>
    cases h
    split at hs <;> exact (hsame rfl rfl hs).elim
  | done => cases h
  | _ => cases hf

/-! ### Runs -/

theorem fixing_of_step {t t' : PodThread} {new : List PodThread}
    (h : t.step w a = some (w', t', new)) (hj : job ∈ t'.fixing) : job ∈ t.fixing := by
  cases t with
  | tail tl =>
    obtain ⟨r, hr, heq⟩ := Option.map_eq_some_iff.mp h
    cases heq
    simp only [PodThread.fixing] at hj ⊢
    split at hj
    next hf =>
      rw [if_pos (step_fixup hr hf)]
      exact hj
    next => cases hj
  | _ =>
    obtain ⟨r, hr, heq⟩ := Option.map_eq_some_iff.mp h
    cases heq
    cases hj

theorem next_fixing (c : PodConfig) (e : PodEvent) (c' : PodConfig)
    (hc : Program.Stable (fun _ => True)
      (fun w _ (t : PodThread) => ∀ job ∈ t.fixing, job.Bound w.tables) c)
    (hg : KeepsVM snapshot c e) (h : (podThreads snapshot).next c e = some c') :
    Program.Stable (fun _ => True)
      (fun w _ (t : PodThread) => ∀ job ∈ t.fixing, job.Bound w.tables) c' := by
  have hkeep : ∀ {c : PodConfig} {e : PodEvent} {c' : PodConfig} {t : PodThread} {job : Job},
      KeepsVM snapshot c e → (podThreads snapshot).next c e = some c' → t ∈ c.threads →
      job ∈ t.fixing → job.Bound c.shared.tables → job.Bound c'.shared.tables := by
    intro c e c' t job hg hn ht hj hb
    exact ((hg c' hn).1 t ht job hj).trans hb
  refine Program.next_stable (podThreads snapshot) (G := KeepsVM snapshot) ?_ ?_ ?_ c e c' hc hg h
  · intro c t _ _ he job hj
    cases t with
    | tail tl => cases he
    | _ => cases hj
  · intro c i t a w' t' new hc hg ht hs
    have hn := Program.next_run_eq (podThreads snapshot) ht hs
    refine ⟨trivial, fun job hj => ?_, fun j u _ hu job hj => ?_, fun j u _ hu job hj => ?_⟩
    · have hold := fixing_of_step hs hj
      exact hkeep hg hn (List.mem_of_getElem? ht) hold (hc.2 i t ht job hold)
    · exact hkeep hg hn (List.mem_of_getElem? hu) hj (hc.2 j u hu job hj)
    · refine (hg _ hn).2 u ?_ job hj
      rw [Program.drop_moved]
      exact hu
  · intro c o w' hc hg ho
    have hn : (podThreads snapshot).next c (.env o) = some ⟨w', c.threads⟩ := by
      simp only [Program.next, ho, Option.map_some]
    exact ⟨trivial, fun j u hu job hj => hkeep hg hn (List.mem_of_getElem? hu) hj (hc.2 j u hu job hj)⟩

theorem speaksForOwnVM_of_fixing (c : PodConfig) (e : PodEvent)
    (hc : Program.Stable (fun _ => True)
      (fun w _ (t : PodThread) => ∀ job ∈ t.fixing, job.Bound w.tables) c) :
    SpeaksForOwnVM snapshot c e := by
  cases e with
  | run i a =>
    intro t ht job hj c' hn hs
    cases t with
    | tail tl =>
      cases hj
      obtain ⟨t₁, w', t', new, ht₁, hstep, rfl⟩ := Program.next_run _ hn
      rw [ht] at ht₁
      cases ht₁
      obtain ⟨r, hr, heq⟩ := Option.map_eq_some_iff.mp hstep
      cases heq
      cases hf : tl.pc.fixup with
      | true => exact hc.2 i _ ht tl.job (by simp [PodThread.fixing, hf])
      | false => exact bound_of_speaks hr hf hs
    | _ => cases hj
  | _ => trivial

/-- When no step swaps the VM of a key during the fixup or SAC pass of one of its tails, and such
tails start with their VM bound, every tail speaks for its own VM. -/
theorem tail_speaks_for_own_vm (w : World) (es : List PodEvent)
    (hg : (podThreads snapshot).machine.Guarded (KeepsVM snapshot) ⟨w, []⟩ es) :
    (podThreads snapshot).machine.Guarded (SpeaksForOwnVM snapshot) ⟨w, []⟩ es :=
  Machine.guarded_of_invariant _ next_fixing (fun c e hc _ => speaksForOwnVM_of_fixing c e hc)
    ⟨trivial, fun i t ht => by cases ht⟩ hg

end TailScope
def freshWorld : World := { sampleWorld with tables := .new, runtime := .empty }

/- A clone that needs the post-clone fixup, and the VM its wake gets. -/
def clonedPod : Pod :=
  { samplePod with spec := ⟨"vk-a", true, .other "linux", .firecracker⟩, modeRun := false }

def wokenVM : VM := { sampleVM with addr := 1, id := "vm2" }

def call (pod : Pod) (launched : VM) (pc : BringPC) : PodEvent :=
  .start (.bring ⟨pod, launched, ⟨"52:54:00:00:00:02", none⟩, pc⟩)

/- `CreatePod` up to its tail, thread 1, which then marks the fixup as running. -/
def createTrace : List PodEvent :=
  call clonedPod sampleVM .track :: (List.replicate 10 (.run 0 sure) ++ [.run 1 sure])

/- The rest of a tail whose fixup succeeds and whose lease comes. -/
def readyTrace (i : ℕ) : List PodEvent :=
  .env (.lease sampleVM.mac (some "10.0.0.5")) :: List.replicate 8 (.run i sure)

/- An update that asks for a hibernate, which is thread 3. -/
def hibernateTrace : List PodEvent :=
  call { clonedPod with ref := 1, hibernate := true } sampleVM .backoff ::
    (List.replicate 5 (.run 2 sure) ++ List.replicate 10 (.run 3 sure))

/- An update that wakes the pod; its tail is thread 5. -/
def wakeTrace : List PodEvent :=
  call { clonedPod with ref := 2 } wokenVM .backoff :: List.replicate 13 (.run 4 sure)

/- The fixup of the first VM, which is gone, runs out of its budget. -/
def exhaustedTrace : List PodEvent :=
  [.run 1 ⟨.failed "vm not found", 0, 0, true, false⟩, .run 1 sure]

theorem tail_speaks_across_hibernate :
    (∃ c, (podThreads (id : LifecycleStatus → LifecycleStatus)).machine.exec ⟨freshWorld, []⟩
        (createTrace ++ readyTrace 1 ++ hibernateTrace ++ wakeTrace ++ .run 5 sure :: readyTrace 5) =
          some c ∧
      c.shared.tables.boundID "ns/a" = some "vm2" ∧
      (c.shared.tables.lifecycleIntent.get "ns/a").map (·.status.state) = some .ready) ∧
    (podThreads (id : LifecycleStatus → LifecycleStatus)).machine.Guarded (SpeaksForOwnVM id)
      ⟨freshWorld, []⟩
      (createTrace ++ readyTrace 1 ++ hibernateTrace ++ wakeTrace ++ .run 5 sure :: readyTrace 5) := by
  refine ⟨?_, tail_speaks_for_own_vm freshWorld _ (by decide +kernel)⟩
  have hrun : ((podThreads (id : LifecycleStatus → LifecycleStatus)).machine.exec ⟨freshWorld, []⟩
      (createTrace ++ readyTrace 1 ++ hibernateTrace ++ wakeTrace ++ .run 5 sure :: readyTrace 5)).map
      (fun c => (c.shared.tables.boundID "ns/a",
        (c.shared.tables.lifecycleIntent.get "ns/a").map (·.status.state))) =
      some (some "vm2", some .ready) := by decide +kernel
  obtain ⟨c, hc, hv⟩ := Option.map_eq_some_iff.mp hrun
  exact ⟨c, hc, Prod.mk.inj hv⟩

theorem tail_fails_woken_vm :
    ¬ ∀ (w : World) (es : List PodEvent),
      (podThreads (id : LifecycleStatus → LifecycleStatus)).machine.Guarded (SpeaksForOwnVM id)
        ⟨w, []⟩ es := by
  intro hall
  exact absurd (hall freshWorld (createTrace ++ hibernateTrace ++ wakeTrace ++ exhaustedTrace))
    (by decide +kernel)

end VkCocoon
