import VkCocoon.Watcher

/-!
# The deferred rechecks

`scheduleDeferredRecheck` starts a goroutine for a VM unless one is pending. A request
that finds one pending counts on it to inspect the VM once more. The goroutine removes
its mark only after it has decided to return, so a request between its last inspect and
that removal is lost.
-/

namespace VkCocoon
open Lib Tables

/-- The VM for which a thread's next step calls `scheduleDeferredRecheck`. -/
def WatchThread.requests : WatchThread → Option VMID
  | .hibernate h => if h.pc = .schedule then some h.v.id else none
  | .watch ⟨_, .schedule _ v _⟩ => some v.id
  | .watch _ => none

def WatchThread.rechecks (x : VMID) : WatchThread → Bool
  | .hibernate _ => false
  | .watch g => g.role == .recheck x

/-- The points of the recheck loop before the inspect of an iteration; `removeThenEvict`
that is about to return true goes back to the loop. -/
def GonePC.beforeInspect : GonePC → Bool
  | .sleep | .look | .recheckInspect _ | .finish _ _ .removed true => true
  | _ => false

/-- A recheck of `x` between its inspect, or its failed lookup, and its next sleep or the
removal of its mark. -/
def WatchThread.pastInspect (x : VMID) : WatchThread → Bool
  | .hibernate _ => false
  | .watch g => g.role == .recheck x && g.pc != .done && !g.pc.beforeInspect

section Recheck
variable {S : Type} [DecidableEq S] (snapshot : LifecycleStatus → S)

/-- Thread `j` inspects `x` in this step, finds that `x` is not tracked, or runs after `Close`. -/
def Looks (x : VMID) (j : ℕ) (c : WatchConfig) (e : WatchEvent) : Prop :=
  ∃ a g, e = .run j a ∧ c.threads[j]? = some (.watch g) ∧
    ((∃ m, g.pc = .recheckInspect m) ∨
      (g.pc = .look ∧ c.shared.tables.podForVMMatch x "" = []) ∨ c.shared.closed = true)

/-- Thread `j` is a recheck of `x` that has yet to inspect: along every run, as long as it has
not looked, it has not come to its end. -/
def OwesInspect (x : VMID) (j : ℕ) (c : WatchConfig) : Prop :=
  ∀ es c', (watchers snapshot).machine.exec c es = some c' →
    (watchers snapshot).machine.Guarded (fun d e => ¬ Looks x j d e) c es →
    ∃ g, c'.threads[j]? = some (.watch g) ∧ g.role = .recheck x ∧ g.pc ≠ .leave ∧ g.pc ≠ .done

/-- Before `Close`, a request for `x` that returns while `x` is tracked leaves a goroutine that
has yet to inspect `x`. -/
def Answered (c : WatchConfig) (e : WatchEvent) : Prop :=
  ∀ i a t x c', e = .run i a → c.threads[i]? = some t → t.requests = some x →
    c.shared.closed = false → (watchers snapshot).next c e = some c' →
    (∃ key u, c'.shared.tables.vmsByPod.get key = some u ∧ u.id = x) →
    ∃ j, OwesInspect snapshot x j c'

/-- No request for a VM comes from another goroutine while a recheck of it is between its
inspect and its next sleep or the removal of its mark. -/
def RequestsInTime (c : WatchConfig) : WatchEvent → Prop
  | .run i _ => ∀ t ∈ c.threads[i]?, ∀ x ∈ t.requests, t.rechecks x = false →
      ∀ u ∈ c.threads, u.pastInspect x = false
  | _ => True

instance (c : WatchConfig) : (e : WatchEvent) → Decidable (RequestsInTime c e)
  | .run i _ => inferInstanceAs (Decidable (∀ t ∈ c.threads[i]?, ∀ x ∈ t.requests,
      t.rechecks x = false → ∀ u ∈ c.threads, u.pastInspect x = false))
  | .start _ | .env _ => .isTrue trivial

/-! ### A goroutine before its inspect -/

/-- Thread `j` is a recheck of `x` before its inspect. -/
def Waiting (x : VMID) (j : ℕ) (c : WatchConfig) : Prop :=
  ∃ g, c.threads[j]? = some (.watch g) ∧ g.role = .recheck x ∧ g.pc.beforeInspect = true

variable {x : VMID} {j : ℕ} {c c' : WatchConfig} {e : WatchEvent}

theorem podForVMMatch_none {w : World} {pick : ℕ} (h : w.podForVMMatch x "" pick = some none) :
    w.tables.podForVMMatch x "" = [] := by
  unfold World.podForVMMatch at h
  split at h
  next hn => exact hn
  next =>
    obtain ⟨kv, -, h⟩ := Option.bind_eq_some_iff.mp h
    obtain ⟨pod, -, h⟩ := Option.map_eq_some_iff.mp h
    cases h

theorem Waiting.run {w w' : World} {a : Answer} {pc pc' : GonePC} {new : List Watch}
    (hb : pc.beforeInspect = true) (hinspect : ∀ m, pc ≠ .recheckInspect m)
    (hmatch : pc = .look → w.tables.podForVMMatch x "" ≠ []) (hopen : w.closed = false)
    (h : Watch.step w (.recheck x) a pc = some (w', pc', new)) : pc'.beforeInspect = true := by
  cases pc with
  | sleep =>
    cases h
    rw [hopen, Bool.false_and, if_neg Bool.false_ne_true]
    rfl
  | look =>
    obtain ⟨m, hm, h⟩ := Option.map_eq_some_iff.mp h
    cases m with
    | none => exact absurd (podForVMMatch_none hm) (hmatch rfl)
    | some m =>
      cases h
      rfl
  | recheckInspect m => exact absurd rfl (hinspect m)
  | finish m v site result =>
    cases site <;> cases result <;> cases hb
    cases h
    rfl
  | _ => cases hb

theorem next_waiting (hw : Waiting x j c) (hno : ¬ Looks x j c e)
    (h : (watchers snapshot).next c e = some c') : Waiting x j c' := by
  obtain ⟨g, hg, hrole, hb⟩ := hw
  by_cases he : ∃ a, e = .run j a
  · obtain ⟨a, rfl⟩ := he
    obtain ⟨t, s', t', new, ht, hs, rfl⟩ := (watchers snapshot).next_run h
    rw [hg] at ht
    cases ht
    obtain ⟨⟨w', pc', forked⟩, hr, heq⟩ := Option.map_eq_some_iff.mp hs
    cases heq
    refine ⟨{ g with pc := pc' }, Program.getElem?_moved hg _ _, hrole, ?_⟩
    rw [hrole] at hr
    refine Waiting.run hb ?_ ?_ ?_ hr
    · intro m hm
      exact hno ⟨a, g, rfl, hg, Or.inl ⟨m, hm⟩⟩
    · intro hl hnil
      exact hno ⟨a, g, rfl, hg, Or.inr (Or.inl ⟨hl, hnil⟩)⟩
    · by_contra hc
      exact hno ⟨a, g, rfl, hg, Or.inr (Or.inr (by simpa using hc))⟩
  · exact ⟨g, (watchers snapshot).next_stands_by h hg fun a ha => he ⟨a, ha⟩, hrole, hb⟩

theorem Waiting.owesInspect (hw : Waiting x j c) : OwesInspect snapshot x j c := by
  intro es c' hexec hno
  obtain ⟨g, hg, hrole, hb⟩ := (watchers snapshot).machine.exec_invariant
    (fun d e d' hd hl hstep => next_waiting snapshot hd hl hstep) hw hno hexec
  refine ⟨g, hg, hrole, ?_, ?_⟩ <;> intro hp <;> rw [hp] at hb <;> cases hb

/-! ### Every mark has its goroutine -/

/-- A recheck goroutine of `x` that has not removed its mark. -/
def Alive (x : VMID) (t : WatchThread) : Prop :=
  ∃ g, t = .watch g ∧ g.role = .recheck x ∧ g.pc ≠ .done

def Marked (c : WatchConfig) : Prop :=
  ∀ x, c.shared.tables.pendingRecheck.has x = true → ∃ t ∈ c.threads, Alive x t

/- Only the removal of the mark ends a recheck. -/
theorem step_done {w w' : World} {a : Answer} {pc : GonePC} {new : List Watch}
    (h : Watch.step w (.recheck x) a pc = some (w', .done, new)) : pc = .leave := by
  cases pc <;> simp only [Watch.step, Role.ret, Evict.evicted, Option.map_eq_some_iff] at h
  case leave => rfl
  all_goals try (repeat' split at h)
  all_goals grind

theorem scheduleDeferredRecheck_cases (w : World) (x : VMID) :
    ((w.closed || w.tables.pendingRecheck.has x) = true ∧ w.scheduleDeferredRecheck x = (w, [])) ∨
    ((w.closed || w.tables.pendingRecheck.has x) = false ∧ w.scheduleDeferredRecheck x =
      (w.onTables (·.addPendingRecheck x), [⟨.recheck x, .sleep⟩])) := by
  unfold World.scheduleDeferredRecheck
  split
  next h => exact Or.inl ⟨h, rfl⟩
  next h => exact Or.inr ⟨by simpa using h, rfl⟩

/- A mark that is new belongs to the goroutine that was started with it. -/
theorem schedule_pending {w : World} {y : VMID}
    (hy : (w.scheduleDeferredRecheck x).1.tables.pendingRecheck.has y = true) :
    w.tables.pendingRecheck.has y = true ∨
    ⟨.recheck y, .sleep⟩ ∈ (w.scheduleDeferredRecheck x).2 := by
  rcases scheduleDeferredRecheck_cases w x with ⟨-, heq⟩ | ⟨-, heq⟩ <;> rw [heq] at hy ⊢
  · exact Or.inl hy
  · simp only [World.onTables_tables, addPendingRecheck, GoMap.has_set, Bool.or_eq_true,
      decide_eq_true_eq] at hy
    rcases hy with rfl | hy
    · exact Or.inr (List.mem_singleton.mpr rfl)
    · exact Or.inl hy

theorem Watch.step_pending {w w' : World} {role : Role} {a : Answer} {pc pc' : GonePC}
    {new : List Watch} {y : VMID} (h : Watch.step w role a pc = some (w', pc', new))
    (hy : w'.tables.pendingRecheck.has y = true) :
    w.tables.pendingRecheck.has y = true ∨ ⟨.recheck y, .sleep⟩ ∈ new := by
  have ht := Watch.step_tables (id : LifecycleStatus → LifecycleStatus) h
  cases pc
  case schedule m v site =>
    cases h
    exact schedule_pending hy
  case leave =>
    cases role <;> cases h
    simp only [World.onTables_tables, dropPendingRecheck, GoMap.has_del, Bool.and_eq_true] at hy
    exact Or.inl hy.2
  all_goals
    left
    rw [ht] at hy
    first
      | exact hy
      | (simp only [Watch.op, runOption] at hy
         rw [run_pendingRecheck] at hy
         · exact hy
         · exact fun _ heq => by cases heq
         · exact fun _ heq => by cases heq)

theorem Hib.step_pending {w : World} {h : Hib} {r : Reply} {s : World × Hib}
    (hs : h.step w r = some s) : s.1.tables.pendingRecheck = w.tables.pendingRecheck := by
  rw [Hib.step_tables (id : LifecycleStatus → LifecycleStatus) hs]
  unfold Hib.op
  cases h.pc
  all_goals first
    | rfl
    | (refine run_pendingRecheck id _ _ ?_ ?_ <;> intro key hop <;> cases hop)

theorem next_marked (hm : Marked c) (h : (watchers snapshot).next c e = some c') : Marked c' := by
  intro y hy
  -- a goroutine that is there stays, or takes its mark away as it ends
  have hkeep : c.shared.tables.pendingRecheck.has y = true → ∃ t ∈ c'.threads, Alive y t := by
    intro hold
    obtain ⟨t, ht, g, rfl, hrole, hpc⟩ := hm y hold
    obtain ⟨j, hj⟩ := List.getElem?_of_mem ht
    by_cases he : ∃ a, e = .run j a
    · obtain ⟨a, rfl⟩ := he
      obtain ⟨t, s', t', new, ht', hs, rfl⟩ := (watchers snapshot).next_run h
      rw [hj] at ht'
      cases ht'
      obtain ⟨⟨w', pc', forked⟩, hr, heq⟩ := Option.map_eq_some_iff.mp hs
      cases heq
      refine ⟨_, List.mem_of_getElem? (Program.getElem?_moved hj _ _), { g with pc := pc' }, rfl,
        hrole, ?_⟩
      intro hdone
      have hdone : pc' = .done := hdone
      rw [hrole, hdone] at hr
      rw [step_done hr] at hr
      cases hr
      simp [dropPendingRecheck, GoMap.has_del] at hy
    · exact ⟨_, List.mem_of_getElem? ((watchers snapshot).next_stands_by h hj
        fun a ha => he ⟨a, ha⟩), g, rfl, hrole, hpc⟩
  cases e with
  | start t =>
    obtain ⟨-, heq⟩ := (watchers snapshot).next_start h
    rw [heq] at hy
    exact hkeep hy
  | env o =>
    obtain ⟨s', hs, heq⟩ := (watchers snapshot).next_env h
    refine hkeep ?_
    rw [heq] at hy
    simp only [watchers] at hs
    split at hs <;> cases hs
    next hallow =>
      cases o with
      | table op =>
        have hsame := run_pendingRecheck snapshot c.shared.tables op
          (by rintro id rfl; cases hallow) (by rintro id rfl; cases hallow)
        rw [← hsame]
        exact hy
      | runtime id v => cases v <;> exact hy
      | apiPod key uid => cases uid <;> exact hy
      | close => exact hy
  | run i a =>
    obtain ⟨t, s', t', new, ht, hs, heq⟩ := (watchers snapshot).next_run h
    rw [heq] at hy
    have hnew : c.shared.tables.pendingRecheck.has y = true ∨
        .watch ⟨.recheck y, .sleep⟩ ∈ new := by
      cases t with
      | watch g =>
        obtain ⟨⟨w', pc', forked⟩, hr, hout⟩ := Option.map_eq_some_iff.mp hs
        cases hout
        exact (Watch.step_pending hr hy).imp_right (List.mem_map_of_mem ·)
      | hibernate hib =>
        simp only [watchers, WatchThread.step] at hs
        split at hs
        · cases hs
          exact (schedule_pending hy).imp_right (List.mem_map_of_mem ·)
        · obtain ⟨r, hr, hout⟩ := Option.map_eq_some_iff.mp hs
          cases hout
          rw [← Hib.step_pending hr]
          exact Or.inl hy
    rcases hnew with hold | hin
    · exact hkeep hold
    · rw [heq]
      exact ⟨_, List.mem_append_right _ hin, ⟨.recheck y, .sleep⟩, rfl, rfl, fun heq => by cases heq⟩

/-! ### Requests that come in time -/

/- The request starts a goroutine, or finds the mark of another one. -/
theorem schedule_answered {i : ℕ} {t t' : WatchThread} {s' : World} {new : List WatchThread}
    (hm : Marked c) (ht : c.threads[i]? = some t) (hnot : t.rechecks x = false)
    (hin : ∀ u ∈ c.threads, u.pastInspect x = false) (hopen : c.shared.closed = false)
    (hs : (s', new) = ((c.shared.scheduleDeferredRecheck x).1,
      (c.shared.scheduleDeferredRecheck x).2.map .watch)) :
    ∃ j, Waiting x j ⟨s', c.threads.set i t' ++ new⟩ := by
  rcases scheduleDeferredRecheck_cases c.shared x with ⟨hpend, heq⟩ | ⟨-, heq⟩
  · rw [hopen, Bool.false_or] at hpend
    obtain ⟨u, hu, g, rfl, hrole, hpc⟩ := hm x hpend
    obtain ⟨j, hj⟩ := List.getElem?_of_mem hu
    have hij : i ≠ j := by
      rintro rfl
      rw [ht] at hj
      cases hj
      rw [WatchThread.rechecks, hrole] at hnot
      simp at hnot
    have hbefore : g.pc.beforeInspect = true := by
      have hpast := hin _ hu
      simpa [WatchThread.pastInspect, hrole, hpc] using hpast
    have hlt : j < c.threads.length := (List.getElem?_eq_some_iff.mp hj).1
    refine ⟨j, g, ?_, hrole, hbefore⟩
    rw [List.getElem?_append_left (by rwa [List.length_set]), List.getElem?_set_ne hij]
    exact hj
  · rw [heq] at hs
    cases hs
    obtain ⟨j, hj⟩ := List.getElem?_of_mem (List.mem_append_right (c.threads.set i t')
      (List.mem_singleton.mpr (rfl : WatchThread.watch ⟨.recheck x, .sleep⟩ = _)))
    exact ⟨j, ⟨.recheck x, .sleep⟩, hj, rfl, rfl⟩

/- What the step of a request does. -/
theorem requests_step {w s' : World} {a : Answer} {t t' : WatchThread} {new : List WatchThread}
    (hr : t.requests = some x) (hs : t.step w a = some (s', t', new)) :
    (s', new) = ((w.scheduleDeferredRecheck x).1, (w.scheduleDeferredRecheck x).2.map .watch) ∧
    (t.rechecks x = true → ∃ g, t' = .watch g ∧ g.role = .recheck x ∧
      g.pc.beforeInspect = true) := by
  cases t with
  | hibernate h =>
    simp only [WatchThread.requests] at hr
    split at hr <;> cases hr
    next hpc =>
      simp only [WatchThread.step, hpc, if_true] at hs
      cases hs
      exact ⟨rfl, fun heq => by cases heq⟩
  | watch g =>
    obtain ⟨role, pc⟩ := g
    cases pc <;> cases hr
    next m v site =>
      cases hs
      refine ⟨rfl, fun hself => ?_⟩
      have hrole : role = .recheck v.id := by simpa [WatchThread.rechecks] using hself
      refine ⟨_, rfl, hrole, ?_⟩
      -- the recheck asked for itself: it returns true to its own loop
      rw [hrole]
      dsimp only
      split <;> rfl

theorem answered_of_inTime (hm : Marked c) (hg : RequestsInTime c e) : Answered snapshot c e := by
  intro i a t x c' he ht hr hopen h _
  subst he
  obtain ⟨t₀, s', t', new, ht₀, hs, rfl⟩ := (watchers snapshot).next_run h
  rw [ht] at ht₀
  cases ht₀
  obtain ⟨hsched, hown⟩ := requests_step hr hs
  have hwait : ∃ j, Waiting x j ⟨s', c.threads.set i t' ++ new⟩ := by
    cases hself : t.rechecks x with
    | true =>
      obtain ⟨g, rfl, hrole, hb⟩ := hown hself
      exact ⟨i, g, Program.getElem?_moved ht _ _, hrole, hb⟩
    | false => exact schedule_answered hm ht hself (hg t ht x hr hself) hopen hsched
  obtain ⟨j, hj⟩ := hwait
  exact ⟨j, hj.owesInspect snapshot⟩

/-- In a run in which no other goroutine asks for a recheck between a recheck's inspect and its
next sleep or the removal of its mark, every request is answered by a goroutine that has yet to
inspect the VM. -/
theorem recheck_answers_every_request (w : World) (es : List WatchEvent)
    (hw : w.tables.pendingRecheck = .empty)
    (hg : (watchers snapshot).machine.Guarded RequestsInTime ⟨w, []⟩ es) :
    (watchers snapshot).machine.Guarded (Answered snapshot) ⟨w, []⟩ es := by
  have hinit : Marked ⟨w, []⟩ := by
    intro x hx
    rw [hw, GoMap.has_empty] at hx
    cases hx
  exact (watchers snapshot).machine.guarded_of_invariant
    (fun c e c' hm _ h => next_marked snapshot hm h)
    (fun c e hm hg => answered_of_inTime snapshot hm hg) hinit hg

end Recheck

/- An event is inconclusive and leaves a recheck; a second one comes before that recheck has
inspected. -/
def twoEventsTrace : List WatchEvent :=
  [.start (.watch ⟨.event, .lookup "vm1" ""⟩), .run 0 sure, .run 0 sure, .run 0 unsure,
   .run 0 unsure, .run 0 sure,
   .start (.watch ⟨.event, .lookup "vm1" ""⟩), .run 2 sure, .run 2 sure, .run 2 unsure,
   .run 2 unsure, .run 2 sure, .run 1 sure, .run 1 sure, .run 1 sure, .run 1 sure]

theorem recheck_answers_second_event :
    ((watchers (id : LifecycleStatus → LifecycleStatus)).machine.exec ⟨sampleWorld, []⟩
      twoEventsTrace).map (fun c => c.threads) =
      some [.watch ⟨.event, .done⟩, .watch ⟨.recheck "vm1", .done⟩, .watch ⟨.event, .done⟩] ∧
    (watchers (id : LifecycleStatus → LifecycleStatus)).machine.Guarded (Answered id)
      ⟨sampleWorld, []⟩ twoEventsTrace :=
  ⟨by decide, recheck_answers_every_request id sampleWorld twoEventsTrace rfl (by decide)⟩

/- The recheck has found `vm1` running and is about to remove its mark when `vm1` stops and the
event of that is inconclusive. -/
def lostTrace : List WatchEvent :=
  [.start (.watch ⟨.event, .lookup "vm1" ""⟩), .run 0 sure, .run 0 sure, .run 0 unsure,
   .run 0 unsure, .run 0 sure, .run 1 sure, .run 1 sure, .run 1 sure,
   .env (.runtime "vm1" (some { sampleVM with state := .other "stopped" })),
   .start (.watch ⟨.event, .lookup "vm1" ""⟩), .run 2 sure, .run 2 sure, .run 2 unsure,
   .run 2 unsure]

theorem recheck_request_lost :
    ¬ ∀ (w : World) (es : List WatchEvent), w.tables.pendingRecheck = .empty →
      (watchers (id : LifecycleStatus → LifecycleStatus)).machine.Guarded (Answered id)
        ⟨w, []⟩ es := by
  intro hall
  let M := (watchers (id : LifecycleStatus → LifecycleStatus)).machine
  have hbefore : (M.exec ⟨sampleWorld, []⟩ lostTrace).map (fun c =>
      (c.threads[2]?.map WatchThread.requests, c.shared.closed)) =
      some (some (some "vm1"), false) := by decide
  have hafter : (M.exec ⟨sampleWorld, []⟩ (lostTrace ++ [.run 2 sure])).map (fun c =>
      (c.threads, c.shared.tables.vmsByPod.get "ns/a")) =
      some ([.watch ⟨.event, .done⟩, .watch ⟨.recheck "vm1", .leave⟩, .watch ⟨.event, .done⟩],
        some sampleVM) := by decide
  obtain ⟨c, hc, hcv⟩ := Option.map_eq_some_iff.mp hbefore
  obtain ⟨c', hc', hcv'⟩ := Option.map_eq_some_iff.mp hafter
  obtain ⟨d, hd, hlast⟩ := M.exec_append_some.mp hc'
  rw [hc] at hd
  cases hd
  obtain ⟨c'', hnext, hend⟩ := M.exec_cons_some.mp hlast
  cases hend
  obtain ⟨hreq, hopen⟩ := Prod.mk.inj hcv
  obtain ⟨hthreads, hvm⟩ := Prod.mk.inj hcv'
  obtain ⟨t, ht, hreq⟩ := Option.map_eq_some_iff.mp hreq
  have hanswered : Answered id c (.run 2 sure) := by
    have hg := hall sampleWorld (lostTrace ++ [.run 2 sure]) rfl
    exact (((M.guarded_append _ _ _ _).mp hg).2 c hc).1
  obtain ⟨j, hj⟩ := hanswered 2 sure t "vm1" c' rfl ht hreq hopen hnext ⟨"ns/a", sampleVM, hvm, rfl⟩
  -- the goroutine it counts on would be one of the three threads
  obtain ⟨g, hg, hrole, hleave, hdone⟩ := hj [] c' rfl trivial
  rw [hthreads] at hg
  match j with
  | 0 => cases hg; cases hrole
  | 1 => cases hg; exact hleave rfl
  | 2 => cases hg; cases hrole
  | j + 3 => cases hg

end VkCocoon
