import VkCocoon.Watcher

/-!
# The restart cooldown

`handleVMGone` stamps the cooldown of a VM before it calls `Runtime.Start`, and takes a VM that does
not run within the cooldown for one that keeps crashing: it removes the VM and evicts its pod. While
a start is under way the VM does not run either.
-/

namespace VkCocoon
open Lib Tables

namespace GonePC

/-- The VM whose `Runtime.Start` has not returned. -/
def starts : GonePC → Option VMID
  | .start m _ => some m.v.id
  | _ => none

/-- At the cooldown check: the VM that would be started, and the one that would be removed. -/
def checks : GonePC → Option (VMID × VMID)
  | .cooldown m inspected => some (m.v.id, inspected.id)
  | _ => none

/-- In `removeThenEvict`. -/
def inRemoval : GonePC → Bool
  | .claim _ _ .removed | .remove _ _ | .releaseLeases _ _ .removed | .deletePod _ _ .removed _
  | .untrack _ _ .removed | .check _ _ .removed | .schedule _ _ .removed | .finish _ _ .removed _ => true
  | _ => false

/-- The next step removes the VM or evicts the pod. -/
def removes : GonePC → Bool
  | .remove _ _ | .deletePod _ _ .removed _ | .untrack _ _ .removed => true
  | _ => false

/-- How a removal is reached. -/
def punishes (pc pc' : GonePC) (before : Option VMID) : Option VMID :=
  if pc'.inRemoval then
    match pc with
    | .cooldown _ inspected => some inspected.id
    | .start _ _ | .recheckInspect _ => none
    | _ => before
  else none

end GonePC

namespace WatchThread

def pc : WatchThread → Option GonePC
  | .hibernate _ => none
  | .watch g => some g.pc

def starts (t : WatchThread) : Option VMID := t.pc.bind GonePC.starts
def checks (t : WatchThread) : Option (VMID × VMID) := t.pc.bind GonePC.checks
def removes (t : WatchThread) : Bool := t.pc.any GonePC.removes

/-- The note of a thread: the VM it is removing because the cooldown has not elapsed. -/
def punishes : WatchThread → WatchThread → Option VMID → Option VMID
  | .watch g, .watch g' => g.pc.punishes g'.pc
  | _, _ => fun _ => none

end WatchThread

/-- A handler with what it punishes. -/
abbrev Handler := WatchThread × Option VMID
abbrev RestartConfig := Config World Handler
abbrev RestartEvent := PoolEvent Handler Answer Around

section Restart
variable {S : Type} [DecidableEq S] (snapshot : LifecycleStatus → S)

def restarts : Program World Handler Answer Around :=
  (watchers snapshot).annotate WatchThread.punishes none

end Restart

/-- A VM is not removed, and its pod not evicted, for an unelapsed cooldown while another call has a
start of the VM under way. -/
def StartSpared (c : RestartConfig) : RestartEvent → Prop
  | .run i _ => ∀ t ∈ c.threads[i]?, t.1.removes = true → ∀ x ∈ t.2,
    ∀ u ∈ c.threads.eraseIdx i, u.1.starts ≠ some x
  | _ => True

/-- Fewer than `restartCooldown` seconds have passed since the stamp of the VM. -/
def World.coolingDown (w : World) (vmID : VMID) (now : ℕ) : Bool :=
  (w.tables.lastRestart.get vmID).any fun last => decide (now < last + restartCooldown)

/-- At the cooldown check of a VM: within the cooldown no other call has a start of it under way, and
after the cooldown no other call is removing it for an unelapsed one. -/
def CheckedApart (c : RestartConfig) : RestartEvent → Prop
  | .run i a => ∀ t ∈ c.threads[i]?, ∀ x ∈ t.1.checks, ∀ u ∈ c.threads.eraseIdx i,
    if c.shared.coolingDown x.1 a.now then u.1.starts ≠ some x.2 else u.2 ≠ some x.1
  | _ => True

instance (c : RestartConfig) : (e : RestartEvent) → Decidable (StartSpared c e)
  | .run i _ => inferInstanceAs (Decidable (∀ t ∈ c.threads[i]?, t.1.removes = true → ∀ x ∈ t.2,
      ∀ u ∈ c.threads.eraseIdx i, u.1.starts ≠ some x))
  | .start _ | .env _ => .isTrue trivial

instance (c : RestartConfig) : (e : RestartEvent) → Decidable (CheckedApart c e)
  | .run i a => inferInstanceAs (Decidable (∀ t ∈ c.threads[i]?, ∀ x ∈ t.1.checks,
      ∀ u ∈ c.threads.eraseIdx i,
      if c.shared.coolingDown x.1 a.now then u.1.starts ≠ some x.2 else u.2 ≠ some x.1))
  | .start _ | .env _ => .isTrue trivial

/-! ### The steps -/

section Steps
variable {w w' : World} {role : Role} {a : Answer} {pc pc' : GonePC} {new : List Watch}

theorem takeRestart_elapsed (w : World) (vmID : VMID) (now : ℕ) :
    (w.tables.takeRestart vmID now).2 = !w.coolingDown vmID now := by
  unfold takeRestart World.coolingDown
  split <;> rename_i h
  · rw [h]
    rfl
  · rw [Bool.not_eq_true] at h
    rw [h]
    rfl

@[simp] theorem Role.ret_starts (role : Role) (b : Bool) : (role.ret b).starts = none := by
  cases role <;> cases b <;> rfl

@[simp] theorem Evict.evicted_starts (m : Match) (v : VM) (site : Evict) :
    (site.evicted m v).starts = none := by
  cases site <;> rfl

theorem Watch.cooldown_step {m : Match} {inspected : VM}
    (h : Watch.step w role a (.cooldown m inspected) = some (w', pc', new)) :
    pc' = if w.coolingDown m.v.id a.now then .claim m inspected .removed else .start m inspected := by
  have helapsed := takeRestart_elapsed w m.v.id a.now
  simp only [Watch.step] at h
  cases h
  rw [helapsed]
  cases w.coolingDown m.v.id a.now <;> rfl

/- A start is issued at the cooldown check alone. -/
theorem Watch.step_starts {x : VMID} (h : Watch.step w role a pc = some (w', pc', new))
    (hx : pc'.starts = some x) :
    ∃ y, pc.checks = some (x, y) ∧ w.coolingDown x a.now = false := by
  cases pc with
  | cooldown m inspected =>
    rw [Watch.cooldown_step h] at hx
    split at hx
    next => cases hx
    next hcool =>
      cases hx
      exact ⟨_, rfl, by simpa using hcool⟩
  | lookup id name =>
    obtain ⟨m, -, hm⟩ := Option.map_eq_some_iff.mp h
    cases m <;> cases hm
    · simp at hx
    · split at hx
      · cases hx
      · simp at hx
  | look =>
    cases role with
    | event => cases h
    | recheck vmID =>
      obtain ⟨m, -, hm⟩ := Option.map_eq_some_iff.mp h
      cases m <;> cases hm <;> cases hx
  | sleep | recheckInspect | leave =>
    cases role with
    | event => cases h
    | recheck vmID =>
      simp only [Watch.step] at h
      repeat' split at h
      all_goals
        cases h
        cases hx
  | done => cases h
  | _ =>
    simp only [Watch.step] at h
    repeat' split at h
    all_goals
      cases h
      first | simp at hx | cases hx

/- A thread that punishes did so before, or has found the cooldown of the VM unelapsed. -/
theorem Watch.step_punishes {x : VMID} {n : Option VMID}
    (h : Watch.step w role a pc = some (w', pc', new)) (hx : pc.punishes pc' n = some x) :
    n = some x ∨ ∃ y, pc.checks = some (y, x) ∧ w.coolingDown y a.now = true := by
  unfold GonePC.punishes at hx
  split at hx
  next hremoval =>
    split at hx
    next m inspected =>
      cases hx
      rw [Watch.cooldown_step h] at hremoval
      split at hremoval
      next hcool => exact Or.inr ⟨m.v.id, rfl, hcool⟩
      next => cases hremoval
    next => cases hx
    next => cases hx
    next => exact Or.inl hx
  next => cases hx

end Steps

section Runs
variable {S : Type} [DecidableEq S] {snapshot : LifecycleStatus → S} {c c' : RestartConfig}

/-- What one thread punishes, another does not start. -/
def Spares (t u : Handler) : Prop := ∀ x, t.2 = some x → u.1.starts ≠ some x

theorem WatchThread.step_hibernate {w w' : World} {a : Answer} {hib : Hib} {t' : WatchThread}
    {forked : List WatchThread} (h : (WatchThread.hibernate hib).step w a = some (w', t', forked)) :
    ∃ hib', t' = .hibernate hib' := by
  simp only [WatchThread.step] at h
  split at h
  · cases h
    exact ⟨_, rfl⟩
  · obtain ⟨s, -, heq⟩ := Option.map_eq_some_iff.mp h
    cases heq
    exact ⟨_, rfl⟩

theorem WatchThread.entry_starts {t : WatchThread} (h : t.entry = true) : t.starts = none := by
  unfold WatchThread.entry at h
  split at h
  · rfl
  · rfl
  · cases h

theorem restarts_step {w w' : World} {i : ℕ} {t t' : Handler} {a : Answer} {new : List Handler}
    (h : (restarts snapshot).step w i t a = some (w', t', new)) :
    (∀ x, t'.1.starts = some x → ∃ y, t.1.checks = some (x, y) ∧ w.coolingDown x a.now = false) ∧
    (∀ x, t'.2 = some x → t.2 = some x ∨ ∃ y, t.1.checks = some (y, x) ∧ w.coolingDown y a.now = true) ∧
    ∀ u ∈ new, u.1.starts = none ∧ u.2 = none := by
  obtain ⟨forked, hstep, hnote, rfl⟩ := Program.annotate_step _ _ _ h
  have hforked : ∀ u ∈ forked, u.starts = none := by
    intro u hu
    obtain ⟨vmID, rfl⟩ := WatchThread.step_forks hstep hu
    rfl
  obtain ⟨t, n⟩ := t
  obtain ⟨t', n'⟩ := t'
  dsimp only at hnote
  subst hnote
  refine ⟨fun x hx => ?_, fun x hx => ?_, ?_⟩
  · cases t with
    | hibernate hib =>
      obtain ⟨hib', rfl⟩ := WatchThread.step_hibernate hstep
      cases hx
    | watch g =>
      obtain ⟨s, hs, heq⟩ := Option.map_eq_some_iff.mp hstep
      cases heq
      exact Watch.step_starts hs hx
  · cases t with
    | hibernate hib => cases t' <;> cases hx
    | watch g =>
      obtain ⟨s, hs, heq⟩ := Option.map_eq_some_iff.mp hstep
      cases heq
      exact Watch.step_punishes hs hx
  · intro u hu
    obtain ⟨v, hv, rfl⟩ := List.mem_map.mp hu
    exact ⟨hforked v hv, rfl⟩

theorem next_spares {e : RestartEvent} (hc : Program.Pairwise Spares c) (hg : CheckedApart c e)
    (h : (restarts snapshot).next c e = some c') : Program.Pairwise Spares c' := by
  refine (restarts snapshot).next_pairwise (G := CheckedApart) ?_ ?_ c e c' hc hg h
  · intro w t henter u
    obtain ⟨hentry, hblank⟩ := Bool.and_eq_true_iff.mp henter
    have hblank : t.2 = none := of_decide_eq_true hblank
    refine ⟨fun x hx => ?_, fun x _ hx => ?_⟩
    · rw [hblank] at hx
      cases hx
    · rw [WatchThread.entry_starts hentry] at hx
      cases hx
  · intro c i t a w' t' new hg ht hs
    obtain ⟨hstarts, hpunishes, hnew⟩ := restarts_step hs
    refine ⟨fun j u hj hu htu hut => ⟨fun x hx hstart => ?_, fun x hx hstart => ?_⟩, fun v hv u => ?_⟩
    · rcases hpunishes x hx with hold | ⟨y, hcheck, hcool⟩
      · exact htu x hold hstart
      · have hapart := hg t ht (y, x) hcheck u (List.mem_eraseIdx_iff_getElem?.mpr ⟨j, hj, hu⟩)
        rw [if_pos hcool] at hapart
        exact hapart hstart
    · obtain ⟨y, hcheck, hcool⟩ := hstarts x hstart
      have hapart := hg t ht (x, y) hcheck u (List.mem_eraseIdx_iff_getElem?.mpr ⟨j, hj, hu⟩)
      rw [if_neg (by rw [hcool]; decide)] at hapart
      exact hapart hx
    · obtain ⟨hstart, hnote⟩ := hnew v hv
      refine ⟨fun x hx => ?_, fun x _ hx => ?_⟩
      · rw [hnote] at hx
        cases hx
      · rw [hstart] at hx
        cases hx

/-- In every run in which the cooldown of a VM is checked only while no other call is at work on it,
no VM is removed for an unelapsed cooldown while it is being started. -/
theorem start_spared (snapshot : LifecycleStatus → S) (w : World) (es : List RestartEvent)
    (hg : (restarts snapshot).machine.Guarded CheckedApart ⟨w, []⟩ es) :
    (restarts snapshot).machine.Guarded StartSpared ⟨w, []⟩ es := by
  refine (restarts snapshot).machine.guarded_of_invariant (fun c e c' hc hge h => next_spares hc hge h)
    (fun c e hc _ => ?_) (fun i j t u _ ht => by cases ht) hg
  cases e with
  | start t => trivial
  | env o => trivial
  | run i a =>
    intro t ht _ x hx u hu
    obtain ⟨j, hj, hu⟩ := List.mem_eraseIdx_iff_getElem?.mp hu
    exact hc i j t u hj.symm ht hu x hx

def goneEvent : RestartEvent := .start (.watch ⟨.event, .lookup "vm1" ""⟩, none)

def stopEvent : RestartEvent := .env (.runtime "vm1" (some { sampleVM with state := .other "stopped" }))

/-- An event whose inspects fail leaves a recheck, which finds the VM stopped and starts it. -/
def recheckStarts : List RestartEvent :=
  [stopEvent, goneEvent, .run 0 sure, .run 0 sure, .run 0 unsure, .run 0 unsure, .run 0 sure] ++
  List.replicate 7 (.run 1 sure)

/-- The start returns, and the VM stops again within the cooldown. -/
theorem start_spared_crash :
    let es := recheckStarts ++ [.run 1 sure, stopEvent, goneEvent] ++ List.replicate 9 (.run 2 sure)
    ((restarts (id : LifecycleStatus → LifecycleStatus)).machine.exec ⟨sampleWorld, []⟩ es).map
      (fun c => (c.shared.runtime.has "vm1", c.shared.apiPods.has "ns/a")) = some (false, false) ∧
    (restarts (id : LifecycleStatus → LifecycleStatus)).machine.Guarded CheckedApart ⟨sampleWorld, []⟩ es ∧
    (restarts (id : LifecycleStatus → LifecycleStatus)).machine.Guarded StartSpared ⟨sampleWorld, []⟩ es :=
  ⟨by decide +kernel, by decide +kernel, start_spared id sampleWorld _ (by decide +kernel)⟩

/-- The event loop handles another event of the VM while the recheck's start is under way. -/
theorem start_punished :
    ¬∀ (w : World) (es : List RestartEvent),
      (restarts (id : LifecycleStatus → LifecycleStatus)).machine.Guarded StartSpared ⟨w, []⟩ es := by
  intro hall
  have hbad := hall sampleWorld (recheckStarts ++ [goneEvent] ++ List.replicate 6 (.run 2 sure))
  revert hbad
  decide +kernel

end Runs

end VkCocoon
