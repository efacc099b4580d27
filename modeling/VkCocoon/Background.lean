import VkCocoon.Tables
import VkCocoon.Lib.Group

/-!
# Background goroutines and shutdown

`goBackground` and `scheduleDeferredRecheck` start goroutines under `p.mu`, each in a wait
group of its own, and only while `lifecycleCtx` is not canceled. `Close` cancels it under
`p.mu` and waits for the two groups one after the other. `dispatchResume` claims a pod and
hands the claim to the goroutine it starts, which gives it back when it ends.

What the goroutines do besides is left open: any of them, and any code that no group waits
for, may at any time start others, schedule rechecks and dispatch resumes.
-/

namespace VkCocoon
open Lib

structure Background where
  /-- `lifecycleCtx.Err() != nil` -/
  canceled : Bool
  recheckWG : ℕ
  bgWG : ℕ
  pendingRecheck : GoMap VMID Unit
  resumedOps : GoMap Key Unit
  probesClosed : Bool

inductive Home where
  /-- callbacks of the framework, the VM watcher, startup -/
  | outside
  /-- `runDeferredRecheck` -/
  | recheck (id : VMID)
  /-- a goroutine of `goBackground` -/
  | background
  /-- one that `dispatchResume` started -/
  | resumed (key : Key)
deriving DecidableEq

inductive ClosePC where
  | stop
  | waitRecheck
  | waitBackground
  | closeProbes
  | returned
deriving DecidableEq

inductive BackgroundPC where
  | running (home : Home)
  /-- `dispatchResume` between `claimResume` and `goBackground` -/
  | claimed (home : Home) (key : Key)
  /-- the deferred section has run, `Done` of the group is next -/
  | leaving (home : Home)
  | close (pc : ClosePC)
  | done
deriving DecidableEq

inductive BackgroundAction where
  | goBackground
  | scheduleDeferredRecheck (id : VMID)
  | dispatchResume (key : Key)
  | finish
deriving DecidableEq

namespace Background
variable (s : Background)

def goBackground (home : Home) : Background × List BackgroundPC :=
  if s.canceled then (s, []) else ({ s with bgWG := s.bgWG + 1 }, [.running home])

def scheduleDeferredRecheck (id : VMID) : Background × List BackgroundPC :=
  if s.canceled || s.pendingRecheck.has id then (s, [])
  else
    ({ s with
        pendingRecheck := s.pendingRecheck.set id ()
        recheckWG := s.recheckWG + 1 }, [.running (.recheck id)])

def claimResume (key : Key) : Background × Bool :=
  if s.resumedOps.has key then (s, false)
  else ({ s with resumedOps := s.resumedOps.set key () }, true)

/-- The deferred section of a goroutine. -/
def deferred : Home → Background
  | .recheck id => { s with pendingRecheck := s.pendingRecheck.del id }
  | .resumed key => { s with resumedOps := s.resumedOps.del key }
  | _ => s

/-- `Done` of the group the goroutine was started in. -/
def finished : Home → Background
  | .outside => s
  | .recheck _ => { s with recheckWG := s.recheckWG - 1 }
  | .background | .resumed _ => { s with bgWG := s.bgWG - 1 }

/-- `Close`; a `Wait` stands while its counter is not zero. -/
def close : ClosePC → Option (Background × ClosePC)
  | .stop => some ({ s with canceled := true }, .waitRecheck)
  | .waitRecheck => if s.recheckWG = 0 then some (s, .waitBackground) else none
  | .waitBackground => if s.bgWG = 0 then some (s, .closeProbes) else none
  | .closeProbes => some ({ s with probesClosed := true }, .returned)
  | .returned => none

def step (pc : BackgroundPC) (a : BackgroundAction) :
    Option (Background × BackgroundPC × List BackgroundPC) :=
  match pc with
  | .running home =>
    match a with
    | .goBackground => some ((s.goBackground .background).1, pc, (s.goBackground .background).2)
    | .scheduleDeferredRecheck id =>
      some ((s.scheduleDeferredRecheck id).1, pc, (s.scheduleDeferredRecheck id).2)
    | .dispatchResume key =>
      some ((s.claimResume key).1, if (s.claimResume key).2 then .claimed home key else pc, [])
    | .finish => some (s.deferred home, .leaving home, [])
  | .claimed home key =>
    some ((s.goBackground (.resumed key)).1, .running home, (s.goBackground (.resumed key)).2)
  | .leaving home => some (s.finished home, .done, [])
  | .close pc => (s.close pc).map fun r => (r.1, .close r.2, [])
  | .done => none

end Background

/-- The surroundings cancel the context `lifecycleCtx` is derived from. -/
def background : Program Background BackgroundPC BackgroundAction Unit where
  entry _ pc := pc = .running .outside || pc = .close .stop
  step s _ pc a := s.step pc a
  env s _ := some { s with canceled := true }

abbrev BackgroundEvent := PoolEvent BackgroundPC BackgroundAction Unit

def noBackground : Background := ⟨false, 0, 0, .empty, .empty, false⟩

/-! ### The groups -/

inductive WaitGroup where
  | recheck
  | background
deriving DecidableEq

def Background.count (s : Background) : WaitGroup → ℕ
  | .recheck => s.recheckWG
  | .background => s.bgWG

def Home.group : Home → Option WaitGroup
  | .outside => none
  | .recheck _ => some .recheck
  | .background | .resumed _ => some .background

namespace BackgroundPC

/-- The goroutine is one that the group waits for. -/
def inGroup (g : WaitGroup) : BackgroundPC → Bool
  | .running home | .claimed home _ | .leaving home => decide (home.group = some g)
  | _ => false

/-- The goroutine has to give the claim back, or to hand it over. -/
def owns (key : Key) : BackgroundPC → Bool
  | .claimed home key' => decide (key' = key) || decide (home = .resumed key)
  | .running home => decide (home = .resumed key)
  | _ => false

/-- No goroutine claims the pod it holds already. -/
def Distinct : BackgroundPC → Prop
  | .claimed home key => home ≠ .resumed key
  | _ => True

end BackgroundPC

open Program BackgroundPC

section Steps
variable {s s' : Background} {t t' : BackgroundPC} {a : BackgroundAction} {new : List BackgroundPC}

theorem Background.close_cases {pc pc' : ClosePC} (h : s.close pc = some (s', pc')) :
    (pc = .stop ∧ pc' = .waitRecheck ∧ s' = { s with canceled := true }) ∨
    (pc = .waitRecheck ∧ pc' = .waitBackground ∧ s' = s ∧ s.recheckWG = 0) ∨
    (pc = .waitBackground ∧ pc' = .closeProbes ∧ s' = s ∧ s.bgWG = 0) ∨
    (pc = .closeProbes ∧ pc' = .returned ∧ s' = { s with probesClosed := true }) := by
  cases pc with
  | stop =>
    cases h
    simp
  | waitRecheck =>
    simp only [Background.close] at h
    split at h <;> cases h
    simp [*]
  | waitBackground =>
    simp only [Background.close] at h
    split at h <;> cases h
    simp [*]
  | closeProbes =>
    cases h
    simp
  | returned => cases h

/-- A group's counter goes up with the goroutines a step starts and down with those that end. -/
theorem step_count (g : WaitGroup) (h : s.step t a = some (s', t', new))
    (hpos : t.inGroup g = true → 0 < s.count g) :
    s'.count g + indicator (t.inGroup g) = s.count g + indicator (t'.inGroup g) + new.countP (inGroup g) := by
  cases t with
  | running home =>
    cases a with
    | goBackground =>
      cases h
      unfold Background.goBackground
      split <;> cases g <;> simp [inGroup, Home.group, Background.count]
      omega
    | scheduleDeferredRecheck id =>
      cases h
      unfold Background.scheduleDeferredRecheck
      split <;> cases g <;> simp [inGroup, Home.group, Background.count]
      omega
    | dispatchResume key =>
      cases h
      unfold Background.claimResume
      split <;> cases g <;> simp [inGroup, Background.count]
    | finish =>
      cases h
      cases home <;> cases g <;> simp [Background.deferred, inGroup, Background.count]
  | claimed home key =>
    cases h
    unfold Background.goBackground
    split <;> cases g <;> simp [inGroup, Home.group, Background.count]
    omega
  | leaving home =>
    cases h
    cases home <;> cases g <;> simp [Background.finished, inGroup, Home.group, Background.count]
    all_goals
      have hgroup := hpos (by simp [inGroup, Home.group])
      simp only [Background.count] at hgroup
      omega
  | close pc =>
    obtain ⟨r, hr, heq⟩ := Option.map_eq_some_iff.mp h
    cases heq
    rcases Background.close_cases hr with ⟨-, -, hs⟩ | ⟨-, -, hs, -⟩ | ⟨-, -, hs, -⟩ | ⟨-, -, hs⟩ <;>
      cases g <;> simp [hs, inGroup, Background.count]
  | done => cases h

/-- Once the context is canceled it stays so, nothing is started and no counter goes up. -/
theorem step_canceled (h : s.step t a = some (s', t', new)) (hc : s.canceled = true) :
    s'.canceled = true ∧ new = [] ∧ ∀ g, s'.count g ≤ s.count g := by
  cases t with
  | running home =>
    cases a with
    | goBackground =>
      cases h
      simp [Background.goBackground, hc]
    | scheduleDeferredRecheck id =>
      cases h
      simp [Background.scheduleDeferredRecheck, hc]
    | dispatchResume key =>
      cases h
      unfold Background.claimResume
      split <;> simp [hc, Background.count]
    | finish =>
      cases h
      cases home <;> simp [Background.deferred, hc, Background.count]
  | claimed home key =>
    cases h
    simp [Background.goBackground, hc]
  | leaving home =>
    cases h
    refine ⟨?_, rfl, fun g => ?_⟩
    · cases home <;> exact hc
    · cases home <;> cases g <;> simp [Background.finished, Background.count]
  | close pc =>
    obtain ⟨r, hr, heq⟩ := Option.map_eq_some_iff.mp h
    cases heq
    rcases Background.close_cases hr with ⟨-, -, hs⟩ | ⟨-, -, hs, -⟩ | ⟨-, -, hs, -⟩ | ⟨-, -, hs⟩ <;>
      refine ⟨by simp [hs, hc], rfl, fun g => ?_⟩ <;> cases g <;> simp [hs, Background.count]
  | done => cases h

/-- Claims are made, handed over and given back; one is lost only when the context is canceled
between the claim and the start of its goroutine. -/
theorem step_owns (key : Key) (h : s.step t a = some (s', t', new)) (hd : t.Distinct)
    (hown : t.owns key = true → s.resumedOps.has key = true) :
    indicator (s.resumedOps.has key) + indicator (t'.owns key) + new.countP (owns key) ≤
      indicator (s'.resumedOps.has key) + indicator (t.owns key) ∧
    (s.canceled = false →
      indicator (s.resumedOps.has key) + indicator (t'.owns key) + new.countP (owns key) =
        indicator (s'.resumedOps.has key) + indicator (t.owns key)) := by
  cases t with
  | running home =>
    cases a with
    | goBackground =>
      cases h
      unfold Background.goBackground
      split <;> simp [owns]
    | scheduleDeferredRecheck id =>
      cases h
      unfold Background.scheduleDeferredRecheck
      split <;> simp [owns]
    | dispatchResume k =>
      cases h
      unfold Background.claimResume
      split
      · simp
      next hfree =>
        by_cases hk : k = key
        · subst hk
          -- the claim is free, so this goroutine does not hold it
          have hnot : home ≠ .resumed k := fun hhome => hfree (hown (by simp [owns, hhome]))
          simp [owns, hnot, hfree, GoMap.has_set]
        · simp [owns, hk, GoMap.has_set, Ne.symm hk]
    | finish =>
      cases h
      cases home with
      | resumed k =>
        by_cases hk : k = key
        · subst hk
          have hheld := hown (by simp [owns])
          simp [owns, Background.deferred, GoMap.has_del, hheld]
        · simp [owns, Background.deferred, GoMap.has_del, hk, Ne.symm hk]
      | _ => simp [owns, Background.deferred]
  | claimed home k =>
    cases h
    unfold Background.goBackground
    by_cases hk : k = key
    · subst hk
      have hhome : home ≠ .resumed k := hd
      split
      next hc => simp [owns, hhome, hc]
      · simp [owns, hhome]
    · split <;> simp [owns, hk]
  | leaving home =>
    cases h
    cases home <;> simp [owns, Background.finished]
  | close pc =>
    obtain ⟨r, hr, heq⟩ := Option.map_eq_some_iff.mp h
    cases heq
    rcases Background.close_cases hr with ⟨-, -, hs⟩ | ⟨-, -, hs, -⟩ | ⟨-, -, hs, -⟩ | ⟨-, -, hs⟩ <;>
      simp [hs, owns]
  | done => cases h

theorem step_new (h : s.step t a = some (s', t', new)) : ∀ u ∈ new, ∃ home, u = .running home := by
  have hstarted : ∀ home, ∀ u ∈ (s.goBackground home).2, ∃ home, u = .running home := by
    intro home u hu
    unfold Background.goBackground at hu
    split at hu
    · cases hu
    · exact ⟨home, List.mem_singleton.mp hu⟩
  cases t with
  | running home =>
    cases a with
    | goBackground =>
      cases h
      exact hstarted _
    | scheduleDeferredRecheck id =>
      cases h
      intro u hu
      unfold Background.scheduleDeferredRecheck at hu
      split at hu
      · cases hu
      · exact ⟨_, List.mem_singleton.mp hu⟩
    | dispatchResume key =>
      cases h
      simp
    | finish =>
      cases h
      simp
  | claimed home key =>
    cases h
    exact hstarted _
  | leaving home =>
    cases h
    simp
  | close pc =>
    obtain ⟨r, hr, heq⟩ := Option.map_eq_some_iff.mp h
    cases heq
    simp
  | done => cases h

theorem step_close {pc' : ClosePC} (h : s.step t a = some (s', .close pc', new)) :
    ∃ pc, t = .close pc ∧ s.close pc = some (s', pc') := by
  cases t with
  | running home =>
    cases a with
    | dispatchResume key =>
      simp only [Background.step, Option.some.injEq, Prod.mk.injEq] at h
      obtain ⟨-, hpc, -⟩ := h
      split at hpc <;> cases hpc
    | _ => cases h
  | claimed home key => cases h
  | leaving home => cases h
  | close pc =>
    obtain ⟨⟨s₁, pc₁⟩, hr, heq⟩ := Option.map_eq_some_iff.mp h
    cases heq
    exact ⟨pc, rfl, hr⟩
  | done => cases h

theorem step_distinct (h : s.step t a = some (s', t', new))
    (hown : ∀ key, t.owns key = true → s.resumedOps.has key = true) : t'.Distinct := by
  cases t with
  | running home =>
    cases a with
    | dispatchResume key =>
      cases h
      unfold Background.claimResume
      split
      · trivial
      next hfree => exact fun hhome => hfree (hown key (by simp [owns, hhome]))
    | _ =>
      cases h
      trivial
  | claimed home key =>
    cases h
    trivial
  | leaving home =>
    cases h
    trivial
  | close pc =>
    obtain ⟨r, hr, heq⟩ := Option.map_eq_some_iff.mp h
    cases heq
    trivial
  | done => cases h

end Steps

/-! ### The invariant -/

/-- What a `Close` has waited for holds from then on. -/
def ClosePC.Waited (s : Background) : ClosePC → Prop
  | .stop => True
  | .waitRecheck => s.canceled = true
  | .waitBackground => s.canceled = true ∧ s.recheckWG = 0
  | .closeProbes | .returned => s.canceled = true ∧ s.recheckWG = 0 ∧ s.bgWG = 0

theorem ClosePC.Waited.kept {s s' : Background} {pc : ClosePC} (h : pc.Waited s)
    (hcanceled : s.canceled = true → s'.canceled = true)
    (hcount : s.canceled = true → ∀ g, s'.count g ≤ s.count g) : pc.Waited s' := by
  have hzero : s.canceled = true → ∀ g, s.count g = 0 → s'.count g = 0 :=
    fun hc g hg => Nat.le_zero.mp (hg ▸ hcount hc g)
  cases pc with
  | stop => trivial
  | waitRecheck => exact hcanceled h
  | waitBackground => exact ⟨hcanceled h.1, hzero h.1 .recheck h.2⟩
  | closeProbes | returned =>
    exact ⟨hcanceled h.1, hzero h.1 .recheck h.2.1, hzero h.1 .background h.2.2⟩

theorem ClosePC.Waited.close {s s' : Background} {pc pc' : ClosePC} (h : pc.Waited s)
    (hs : s.close pc = some (s', pc')) : pc'.Waited s' := by
  rcases Background.close_cases hs with ⟨rfl, rfl, rfl⟩ | ⟨rfl, rfl, rfl, hzero⟩ | ⟨rfl, rfl, rfl, hzero⟩ |
    ⟨rfl, rfl, rfl⟩
  · rfl
  · exact ⟨h, hzero⟩
  · exact ⟨h.1, h.2, hzero⟩
  · exact h

/-- What every thread keeps to. -/
def BackgroundPC.Sound (s : Background) (pc : BackgroundPC) : Prop :=
  pc.Distinct ∧ ∀ closing, pc = .close closing → closing.Waited s

structure Background.Sound (c : Config Background BackgroundPC) : Prop where
  counted : ∀ g, Counted (inGroup g) (·.count g) c
  threads : ∀ t ∈ c.threads, t.Sound c.shared
  claims : ∀ key, c.threads.countP (owns key) ≤ indicator (c.shared.resumedOps.has key)
  kept : c.shared.canceled = false → ∀ key,
    c.threads.countP (owns key) = indicator (c.shared.resumedOps.has key)

namespace Background.Sound
variable {c c' : Config Background BackgroundPC}

theorem held (hc : Background.Sound c) {t : BackgroundPC} (ht : t ∈ c.threads) {key : Key}
    (ho : t.owns key = true) : c.shared.resumedOps.has key = true := by
  have hpos : 0 < c.threads.countP (owns key) := List.countP_pos_iff.mpr ⟨t, ht, ho⟩
  have hle := hc.claims key
  cases hheld : c.shared.resumedOps.has key with
  | true => rfl
  | false =>
    rw [hheld, indicator_false] at hle
    omega

end Background.Sound

theorem next_backgroundSound (c : Config Background BackgroundPC) (e : BackgroundEvent)
    (c' : Config Background BackgroundPC) (hc : Background.Sound c) (_ : True)
    (h : background.next c e = some c') : Background.Sound c' := by
  have hcounted : ∀ g, Counted (inGroup g) (·.count g) c' := fun g =>
    background.next_counted (p := inGroup g)
      (fun s t ht => by
        rcases Bool.or_eq_true_iff.mp ht with ht | ht <;> simp only [decide_eq_true_eq] at ht <;> subst ht <;>
          cases g <;> rfl)
      (fun s i t a s' t' new hs hpos => step_count g hs hpos)
      (fun s o s' hs => by
        cases hs
        cases g <;> rfl)
      (hc.counted g) h
  cases e with
  | start t =>
    obtain ⟨he, rfl⟩ := background.next_start h
    have hsound : t.Sound c.shared ∧ ∀ key, t.owns key = false := by
      rcases Bool.or_eq_true_iff.mp he with ht | ht <;> simp only [decide_eq_true_eq] at ht <;> subst ht
      · exact ⟨⟨trivial, fun _ heq => by cases heq⟩, fun key => rfl⟩
      · refine ⟨⟨trivial, fun closing heq => ?_⟩, fun key => rfl⟩
        cases heq
        trivial
    have hcount : ∀ key, (c.threads ++ [t]).countP (owns key) = c.threads.countP (owns key) := by
      intro key
      simp [List.countP_append, hsound.2 key]
    refine ⟨hcounted, fun u hu => ?_, fun key => ?_, fun hopen key => ?_⟩
    · rcases List.mem_append.mp hu with hu | hu
      · exact hc.threads u hu
      · rw [List.mem_singleton.mp hu]
        exact hsound.1
    · rw [hcount]
      exact hc.claims key
    · rw [hcount]
      exact hc.kept hopen key
  | env o =>
    obtain ⟨s', hs, rfl⟩ := background.next_env h
    cases hs
    refine ⟨hcounted, fun u hu => ?_, hc.claims, fun hopen => by cases hopen⟩
    obtain ⟨hd, hw⟩ := hc.threads u hu
    refine ⟨hd, fun closing heq => (hw closing heq).kept (fun _ => rfl) fun _ g => ?_⟩
    cases g <;> exact Nat.le_refl _
  | run i a =>
    obtain ⟨t, s', t', new, ht, hs, rfl⟩ := background.next_run h
    have hmem : t ∈ c.threads := List.mem_of_getElem? ht
    obtain ⟨hd, hw⟩ := hc.threads t hmem
    have hstep : c.shared.step t a = some (s', t', new) := hs
    have hcanceled : c.shared.canceled = true → s'.canceled = true := fun hc' => (step_canceled hstep hc').1
    have hdown : c.shared.canceled = true → ∀ g, s'.count g ≤ c.shared.count g :=
      fun hc' => (step_canceled hstep hc').2.2
    have hbalance := fun key => step_owns key hstep hd (hc.held hmem)
    have hmoved := fun key => countP_moved (p := owns key) ht t' new
    refine ⟨hcounted, fun u hu => ?_, fun key => ?_, fun hopen key => ?_⟩
    · rcases List.mem_append.mp hu with hu | hu
      · rcases List.mem_or_eq_of_mem_set hu with hu | rfl
        · obtain ⟨hdu, hwu⟩ := hc.threads u hu
          exact ⟨hdu, fun closing heq => (hwu closing heq).kept hcanceled hdown⟩
        · refine ⟨step_distinct hstep fun key => hc.held hmem, fun closing heq => ?_⟩
          subst heq
          obtain ⟨pc, rfl, hclose⟩ := step_close hstep
          exact (hw pc rfl).close hclose
      · obtain ⟨home, rfl⟩ := step_new hstep u hu
        exact ⟨trivial, fun _ heq => by cases heq⟩
    · have hbefore := hc.claims key
      have := hmoved key
      have := (hbalance key).1
      dsimp only
      omega
    · have hwas : c.shared.canceled = false := by
        cases hwas : c.shared.canceled with
        | false => rfl
        | true => exact absurd (hcanceled hwas) (by simp [show s'.canceled = false from hopen])
      have hbefore := hc.kept hwas key
      have := hmoved key
      have := (hbalance key).2 hwas
      dsimp only
      omega

theorem noBackground_sound : Background.Sound ⟨noBackground, []⟩ := by
  refine ⟨fun g => ?_, by simp, fun key => ?_, fun _ key => ?_⟩
  · cases g <;> rfl
  · simp [noBackground]
  · simp [noBackground]

theorem exec_backgroundSound {c c' : Config Background BackgroundPC} {es : List BackgroundEvent}
    (hc : Background.Sound c) (h : background.machine.exec c es = some c') : Background.Sound c' :=
  background.machine.exec_invariant next_backgroundSound hc (background.machine.guarded_true c es) h

/-! ### Close -/

section Progress
variable {i : ℕ} {c : Config Background BackgroundPC}

end Progress

section Claims
variable {c : Config Background BackgroundPC} {key : Key}

/-- A resumed operation that ends gives its claim back. -/
theorem resumed_releases {i : ℕ} (hi : c.threads[i]? = some (.running (.resumed key))) :
    ∃ es c', background.machine.exec c es = some c' ∧ c'.shared.resumedOps.has key = false := by
  have hstep : background.step c.shared i (.running (.resumed key)) .finish =
      some (c.shared.deferred (.resumed key), .leaving (.resumed key), []) := rfl
  refine ⟨[.run i .finish], _, background.machine.exec_cons_some.mpr
    ⟨_, background.next_run_eq hi hstep, rfl⟩, ?_⟩
  simp [Background.deferred, GoMap.has_del]

/-- Before the shutdown whoever has a claim can give it back. -/
theorem owner_releases {i : ℕ} {t : BackgroundPC} (hi : c.threads[i]? = some t) (ho : t.owns key = true)
    (hopen : c.shared.canceled = false) :
    ∃ es c', background.machine.exec c es = some c' ∧ c'.shared.resumedOps.has key = false := by
  cases t with
  | running home =>
    have hhome : home = .resumed key := by simpa [owns] using ho
    subst hhome
    exact resumed_releases hi
  | claimed home k =>
    have hstep : background.step c.shared i (.claimed home k) .finish =
        some ({ c.shared with bgWG := c.shared.bgWG + 1 }, .running home, [.running (.resumed k)]) := by
      simp [background, Background.step, Background.goBackground, hopen]
    have hnext := background.next_run_eq hi hstep
    obtain ⟨j, hj⟩ : ∃ j : ℕ, (c.threads.set i (.running home) ++ [.running (.resumed k)])[j]? =
        some (BackgroundPC.running (.resumed key)) := by
      rcases Bool.or_eq_true_iff.mp ho with hk | hhome
      · refine ⟨c.threads.length, ?_⟩
        rw [of_decide_eq_true hk]
        simp
      · refine ⟨i, ?_⟩
        rw [of_decide_eq_true hhome]
        exact getElem?_moved hi _ _
    obtain ⟨es, c', hexec, hfree⟩ := resumed_releases
      (c := ⟨{ c.shared with bgWG := c.shared.bgWG + 1 }, c.threads.set i (.running home) ++
        [.running (.resumed k)]⟩) hj
    exact ⟨.run i .finish :: es, c', background.machine.exec_cons_some.mpr ⟨_, hnext, hexec⟩, hfree⟩
  | leaving | close | done => cases ho

end Claims

/-- However resumes are dispatched: at most one goroutine has the claim of a pod, from the dispatch
to the end of the resumed operation, and the callbacks of the pod back off all that time; until the
shutdown every claim has its goroutine and can be given back, so that the callbacks get through. -/
theorem resumes_exclusive (es : List BackgroundEvent) (c : Config Background BackgroundPC)
    (h : background.machine.exec ⟨noBackground, []⟩ es = some c) (key : Key) :
    (∀ (i j : ℕ) t u, c.threads[i]? = some t → c.threads[j]? = some u → t.owns key = true →
      u.owns key = true → i = j) ∧
    (∀ t ∈ c.threads, t.owns key = true → c.shared.resumedOps.has key = true) ∧
    (c.shared.canceled = false → c.shared.resumedOps.has key = true →
      (∃ t ∈ c.threads, t.owns key = true) ∧
      ∃ es' c', background.machine.exec c es' = some c' ∧ c'.shared.resumedOps.has key = false) := by
  have hsound := exec_backgroundSound noBackground_sound h
  refine ⟨fun i j t u hi hj ht hu => ?_, fun t ht ho => hsound.held ht ho, fun hopen hheld => ?_⟩
  · have hone : c.threads.countP (owns key) ≤ 1 := by
      have hle := hsound.claims key
      cases hheld : c.shared.resumedOps.has key <;> simp only [hheld, indicator_true, indicator_false] at hle <;>
        omega
    exact eq_of_countP_le_one hone hi hj ht hu
  · have hcount := hsound.kept hopen key
    rw [hheld, indicator_true] at hcount
    have hpos : 0 < c.threads.countP (owns key) := by omega
    obtain ⟨i, t, hi, ho⟩ := exists_of_countP_pos hpos
    exact ⟨⟨t, List.mem_of_getElem? hi, ho⟩, owner_releases hi ho hopen⟩

/- A second dispatch for the pod finds the claim taken. -/
def resumeTrace : List BackgroundEvent :=
  [.start (.running .outside), .start (.running .outside), .run 0 (.dispatchResume "ns/a"),
   .run 1 (.dispatchResume "ns/a"), .run 0 .finish, .run 1 (.dispatchResume "ns/a")]

theorem second_resume_turned_away : ∃ c,
    background.machine.exec ⟨noBackground, []⟩ resumeTrace = some c ∧
    c.threads = [.running .outside, .running .outside, .running (.resumed "ns/a")] ∧
    ∃ es' c', background.machine.exec c es' = some c' ∧ c'.shared.resumedOps.has "ns/a" = false := by
  have hrun : (background.machine.exec ⟨noBackground, []⟩ resumeTrace).map
      (fun c => (c.threads, c.shared.canceled, c.shared.resumedOps.has "ns/a")) =
      some ([.running .outside, .running .outside, .running (.resumed "ns/a")], false, true) := by decide
  obtain ⟨c, hc, heq⟩ := Option.map_eq_some_iff.mp hrun
  simp only [Prod.mk.injEq] at heq
  obtain ⟨hts, hopen, hheld⟩ := heq
  obtain ⟨-, -, hfree⟩ := resumes_exclusive resumeTrace c hc "ns/a"
  exact ⟨c, hc, hts, (hfree hopen hheld).2⟩

end VkCocoon
