import Mathlib.Data.List.Chain
import Mathlib.Data.List.Infix
import VkCocoon.Lib.GoMap
import VkCocoon.Types

/-!
# The probe agents

One goroutine per pod probes its guest. The loop in `run` debounces: it reports a pod that was
ready as not ready after three failures in a row, and calls `onUpdate` when its readiness flips.
The result that `Get` hands out is written before that, from the outcome as it came.
-/

namespace VkCocoon.Probes
open Lib

/-- The answer of a `Probe`. -/
structure Outcome where
  ready : Bool
  message : String
deriving DecidableEq, Repr

structure Result where
  ready : Bool
  /-- `none` for the zero time -/
  lastSeen : Option ℕ
  message : String
deriving DecidableEq, Repr

/- Durations in nanoseconds. -/
def defaultInitialInterval : ℕ := 100000000
def defaultInitialBackoffMax : ℕ := 1000000000
def defaultSteadyInterval : ℕ := 5000000000
def defaultFailureThreshold : ℕ := 3

/-- The step of the backoff is 1.5. -/
def nextInitialInterval (d : ℕ) : ℕ := min (d * 3 / 2) defaultInitialBackoffMax

/-- An agent is told from the others by its pointer. -/
structure Manager where
  results : GoMap Key Result
  agents : GoMap Key ℕ
  nextAgent : ℕ

namespace Manager
variable (m : Manager)

def get (key : Key) : Result := (m.results.get key).getD ⟨false, none, ""⟩

def forget (key : Key) : Manager :=
  { m with agents := m.agents.del key, results := m.results.del key }

/-- The first section of `Start`. -/
def register (key : Key) : Manager :=
  { m with agents := m.agents.set key m.nextAgent, nextAgent := m.nextAgent + 1 }

def setOwned (key : Key) (ag : ℕ) (o : Outcome) (now : ℕ) : Manager × Bool :=
  if m.agents.get key = some ag then
    ({ m with results := m.results.set key ⟨o.ready, some now, o.message⟩ }, true)
  else (m, false)

end Manager

/-- The locals of `run`. -/
structure Loop where
  lastReady : Bool
  failures : ℕ
  interval : ℕ
deriving DecidableEq, Repr

def Loop.init (lastReady : Bool) : Loop :=
  ⟨lastReady, 0, if lastReady then defaultSteadyInterval else defaultInitialInterval⟩

/-- The switch of `run`: the locals after it, and whether it gets to a call of `onUpdate`. -/
def Loop.next (l : Loop) (ready : Bool) : Loop × Bool :=
  if ready && !l.lastReady then (⟨true, 0, defaultSteadyInterval⟩, true)
  else if ready then ({ l with failures := 0 }, false)
  else if !l.lastReady then ({ l with interval := nextInitialInterval l.interval }, false)
  else if l.failures + 1 ≥ defaultFailureThreshold then
    (⟨false, l.failures + 1, defaultInitialInterval⟩, true)
  else ({ l with failures := l.failures + 1 }, false)

/-- One agent; `onUpdate` when it was given a callback. -/
structure Agent where
  key : Key
  id : ℕ
  onUpdate : Bool
deriving DecidableEq, Repr

/-- The manager and the goroutine of one agent. `announced` is a history variable: the readiness in
force when `Start` returned or `onUpdate` was last called. -/
structure Running where
  manager : Manager
  loop : Loop
  stopped : Bool
  announced : Bool

/-- What the rest of the provider does to the manager. -/
inductive Op where
  | start (key : Key)
  | setOwned (key : Key) (ag : ℕ) (o : Outcome) (now : ℕ)
  | forget (key : Key)
deriving DecidableEq, Repr

def Op.run (m : Manager) : Op → Manager
  | .start key => m.register key
  | .setOwned key ag o now => (m.setOwned key ag o now).1
  | .forget key => m.forget key

inductive Event where
  | iterate (o : Outcome) (now : ℕ)
  | other (op : Op)
deriving DecidableEq, Repr

namespace Agent
variable (ag : Agent)

/-- One iteration of `run` once the sleep is over. -/
def iterate (s : Running) (o : Outcome) (now : ℕ) : Running :=
  match s.manager.setOwned ag.key ag.id o now with
  | (m, false) => { s with manager := m, stopped := true }
  | (m, true) =>
    match s.loop.next o.ready with
    | (loop, flips) =>
      { s with
        manager := m
        loop := loop
        announced := if flips && ag.onUpdate then loop.lastReady else s.announced }

def step (s : Running) : Event → Running
  | .iterate o now => if s.stopped then s else ag.iterate s o now
  | .other op => { s with manager := op.run s.manager }

/-- `Start` from its first probe on. -/
def start (m : Manager) (first : Outcome) (now : ℕ) : Running :=
  match m.setOwned ag.key ag.id first now with
  | (m, owned) => ⟨m, .init first.ready, !owned, first.ready⟩

def run (s : Running) (es : List Event) : Running := es.foldl ag.step s

/-- What a reader of the status sees. -/
def exposed (s : Running) : Bool := (s.manager.get ag.key).ready

/-- The agent is neither replaced nor forgotten; the others may still write what they own. -/
def Spares : Op → Prop
  | .start key | .forget key => key ≠ ag.key
  | .setOwned _ id _ _ => id ≠ ag.id

instance : (op : Op) → Decidable (ag.Spares op)
  | .start key => inferInstanceAs (Decidable (key ≠ ag.key))
  | .forget key => inferInstanceAs (Decidable (key ≠ ag.key))
  | .setOwned _ id _ _ => inferInstanceAs (Decidable (id ≠ ag.id))

end Agent

/-- The outcomes of the iterations. -/
def outcomes : List Event → List Bool
  | [] => []
  | .iterate o _ :: es => o.ready :: outcomes es
  | .other _ :: es => outcomes es

def others : List Event → List Op
  | [] => []
  | .iterate _ _ :: es => others es
  | .other op :: es => op :: others es

/-! ### Ownership -/

section Owner
variable {ag : Agent} {m : Manager}

theorem setOwned_owner (h : m.agents.get ag.key = some ag.id) (o : Outcome) (now : ℕ) :
    m.setOwned ag.key ag.id o now =
      ({ m with results := m.results.set ag.key ⟨o.ready, some now, o.message⟩ }, true) := if_pos h

/- An agent that was replaced under its key cannot write the result of its successor. -/
theorem setOwned_stale (h : m.agents.get ag.key = some ag.id) {id : ℕ} (hne : id ≠ ag.id)
    (o : Outcome) (now : ℕ) : m.setOwned ag.key id o now = (m, false) := by
  refine if_neg fun hown => hne ?_
  rw [h] at hown
  exact (Option.some.inj hown).symm

theorem run_spares {op : Op} (h : m.agents.get ag.key = some ag.id) (hop : ag.Spares op) :
    (op.run m).agents.get ag.key = some ag.id ∧
      (op.run m).results.get ag.key = m.results.get ag.key := by
  cases op with
  | start key =>
    have hne : ag.key ≠ key := fun he => hop he.symm
    exact ⟨(GoMap.get_set_ne m.agents _ hne).trans h, rfl⟩
  | forget key =>
    have hne : ag.key ≠ key := fun he => hop he.symm
    exact ⟨(GoMap.get_del_ne m.agents hne).trans h, GoMap.get_del_ne m.results hne⟩
  | setOwned key id o now =>
    by_cases hkey : key = ag.key
    · subst hkey
      have hstale := setOwned_stale h hop o now
      simp only [Op.run, hstale]
      exact ⟨h, trivial⟩
    · have hne : ag.key ≠ key := fun he => hkey he.symm
      unfold Op.run Manager.setOwned
      dsimp only
      split
      · exact ⟨h, GoMap.get_set_ne m.results _ hne⟩
      · exact ⟨h, rfl⟩

theorem runs_spare (ops : List Op) (h : m.agents.get ag.key = some ag.id)
    (hops : ∀ op ∈ ops, ag.Spares op) :
    (ops.foldl Op.run m).agents.get ag.key = some ag.id := by
  induction ops generalizing m with
  | nil => exact h
  | cons op ops ih =>
    have hop := (run_spares h (hops op List.mem_cons_self)).1
    exact ih hop fun x hx => hops x (List.mem_cons_of_mem _ hx)

end Owner

/-! ### One iteration -/

/-- What holds of the goroutine when `last` was the latest outcome. -/
structure Inv (ag : Agent) (last : Bool) (s : Running) : Prop where
  owner : s.manager.agents.get ag.key = some ag.id
  going : s.stopped = false
  exposed : ag.exposed s = last
  announced : ag.onUpdate = true → s.announced = s.loop.lastReady
  cleared : last = true → s.loop.lastReady = true ∧ s.loop.failures = 0

section Step
variable {ag : Agent} {s : Running} {last : Bool}

theorem exposed_set (m : Manager) (l : Loop) (b c : Bool) (o : Outcome) (now : ℕ) :
    ag.exposed ⟨{ m with results := m.results.set ag.key ⟨o.ready, some now, o.message⟩ }, l, b, c⟩ =
      o.ready := by
  simp only [Agent.exposed, Manager.get, GoMap.get_set_self, Option.getD_some]

theorem next_cleared (l : Loop) : (l.next true).1.lastReady = true ∧ (l.next true).1.failures = 0 := by
  obtain ⟨lastReady, failures, interval⟩ := l
  cases lastReady <;> exact ⟨rfl, rfl⟩

/- Without a flip the readiness of the loop stays. -/
theorem next_unflipped {l : Loop} {ready : Bool} (h : (l.next ready).2 = false) :
    (l.next ready).1.lastReady = l.lastReady := by
  unfold Loop.next at h ⊢
  split
  next hc => rw [if_pos hc] at h; cases h
  next hc =>
    rw [if_neg hc] at h
    split
    · rfl
    next hr =>
      rw [if_neg hr] at h
      split
      · rfl
      next hl =>
        rw [if_neg hl] at h
        split
        next hf => rw [if_pos hf] at h; cases h
        next => rfl

theorem iterate_eq (h : Inv ag last s) (o : Outcome) (now : ℕ) : ag.step s (.iterate o now) =
    { manager := { s.manager with
        results := s.manager.results.set ag.key ⟨o.ready, some now, o.message⟩ }
      loop := (s.loop.next o.ready).1
      stopped := false
      announced := if (s.loop.next o.ready).2 && ag.onUpdate then (s.loop.next o.ready).1.lastReady
        else s.announced } := by
  simp only [Agent.step, h.going, Agent.iterate, setOwned_owner h.owner]
  rfl

theorem iterate_inv (h : Inv ag last s) (o : Outcome) (now : ℕ) :
    Inv ag o.ready (ag.step s (.iterate o now)) := by
  rw [iterate_eq h]
  refine ⟨h.owner, rfl, exposed_set _ _ _ _ o now, fun hup => ?_, fun hr => ?_⟩
  · dsimp only
    cases hflip : (s.loop.next o.ready).2 with
    | true => rw [hup]; rfl
    | false =>
      rw [next_unflipped hflip]
      exact h.announced hup
  · rw [hr]
    exact next_cleared s.loop

theorem other_inv (h : Inv ag last s) {op : Op} (hop : ag.Spares op) :
    Inv ag last (ag.step s (.other op)) := by
  obtain ⟨hown, hres⟩ := run_spares h.owner hop
  refine ⟨hown, h.going, ?_, h.announced, h.cleared⟩
  rw [← h.exposed]
  simp only [Agent.exposed, Manager.get, Agent.step, hres]

theorem start_inv {m : Manager} (h : m.agents.get ag.key = some ag.id) (first : Outcome) (now : ℕ) :
    Inv ag first.ready (ag.start m first now) := by
  have heq : ag.start m first now =
      ⟨{ m with results := m.results.set ag.key ⟨first.ready, some now, first.message⟩ },
        .init first.ready, false, first.ready⟩ := by
    simp only [Agent.start, setOwned_owner h]
    rfl
  rw [heq]
  exact ⟨h, rfl, exposed_set _ _ _ _ first now, fun _ => rfl, fun hr => ⟨hr, rfl⟩⟩

/-- The next outcome repeats the last one, or is a success with a callback that announces it. -/
def Follows (onUpdate : Bool) (last ready : Bool) : Prop := ready = last ∨ (onUpdate = true ∧ ready = true)

instance (onUpdate last ready : Bool) : Decidable (Follows onUpdate last ready) :=
  inferInstanceAs (Decidable (_ ∨ _))

/- After an iteration from a state where the two agree, they agree again exactly if the outcome
follows the last one: the first failure of a ready pod is exposed and not announced. -/
theorem iterate_agrees_iff (h : Inv ag last s) (hs : s.announced = last) (o : Outcome) (now : ℕ) :
    (ag.step s (.iterate o now)).announced = o.ready ↔ Follows ag.onUpdate last o.ready := by
  rw [iterate_eq h]
  dsimp only
  unfold Follows
  cases hup : ag.onUpdate with
  | false =>
    simp only [Bool.and_false, Bool.false_eq_true, if_false, false_and, or_false]
    rw [hs]
    exact eq_comm
  | true =>
    have hlast : s.loop.lastReady = last := (h.announced hup).symm.trans hs
    cases hl : last with
    | true =>
      have hfail := (h.cleared hl).2
      cases hr : o.ready <;> simp [Loop.next, hlast, hl, hfail, hs, defaultFailureThreshold]
    | false =>
      cases hr : o.ready <;> simp [Loop.next, hlast, hl, hs]

end Step

/-! ### Whole runs -/

section Runs
variable {ag : Agent}

/-- After every iteration the exposed readiness is the announced one. -/
def Agrees (ag : Agent) (s : Running) (es : List Event) : Prop :=
  ∀ p, p <+: es → ag.exposed (ag.run s p) = (ag.run s p).announced

theorem agrees_nil (s : Running) : Agrees ag s [] ↔ ag.exposed s = s.announced := by
  constructor
  · intro h
    exact h [] List.prefix_rfl
  · intro h p hp
    rw [List.prefix_nil.mp hp]
    exact h

theorem agrees_cons (s : Running) (e : Event) (es : List Event) :
    Agrees ag s (e :: es) ↔ ag.exposed s = s.announced ∧ Agrees ag (ag.step s e) es := by
  constructor
  · intro h
    refine ⟨h [] List.nil_prefix, fun p hp => ?_⟩
    exact h (e :: p) (List.cons_prefix_cons.mpr ⟨rfl, hp⟩)
  · rintro ⟨h0, h⟩ p hp
    cases p with
    | nil => exact h0
    | cons x p =>
      obtain ⟨rfl, hrest⟩ := List.cons_prefix_cons.mp hp
      exact h p hrest

theorem agrees_iff_follows (es : List Event) {s : Running} {last : Bool} (h : Inv ag last s)
    (hes : ∀ op ∈ others es, ag.Spares op) :
    Agrees ag s es ↔ s.announced = last ∧ (last :: outcomes es).IsChain (Follows ag.onUpdate) := by
  induction es generalizing s last with
  | nil =>
    rw [agrees_nil, h.exposed, eq_comm]
    simp [outcomes]
  | cons e es ih =>
    rw [agrees_cons, h.exposed, eq_comm]
    refine and_congr_right fun hs => ?_
    cases e with
    | iterate o now =>
      rw [ih (iterate_inv h o now) hes, iterate_agrees_iff h hs, outcomes, List.isChain_cons_cons]
    | other op =>
      have hop : ag.Spares op := hes op List.mem_cons_self
      rw [ih (other_inv h hop) fun x hx => hes x (List.mem_cons_of_mem _ hx)]
      exact and_iff_right hs

/-- The agent that `Start` registers, and its state when `Start` has written the first result;
`between` is what ran while the first probe did. -/
def Manager.startAgent (m : Manager) (key : Key) (onUpdate : Bool) (between : List Op)
    (first : Outcome) (now : ℕ) : Agent × Running :=
  let ag : Agent := ⟨key, m.nextAgent, onUpdate⟩
  (ag, ag.start (between.foldl Op.run (m.register key)) first now)

/-- What `Get` answers is what was announced, after `Start` and after every iteration, exactly if
every outcome repeats the one before it or is a success that a callback announces. -/
theorem exposed_announced_iff (m : Manager) (key : Key) (onUpdate : Bool) (between : List Op)
    (first : Outcome) (now : ℕ) (es : List Event)
    (hops : ∀ op ∈ between ++ others es, (⟨key, m.nextAgent, onUpdate⟩ : Agent).Spares op) :
    Agrees (m.startAgent key onUpdate between first now).1
        (m.startAgent key onUpdate between first now).2 es ↔
      (first.ready :: outcomes es).IsChain (Follows onUpdate) := by
  have hown := @runs_spare ⟨key, m.nextAgent, onUpdate⟩ (m.register key) between
    (GoMap.get_set_self _ _ _) fun op hop => hops op (List.mem_append_left _ hop)
  have hinv := start_inv hown first now
  have hann : (Agent.start ⟨key, m.nextAgent, onUpdate⟩ (between.foldl Op.run (m.register key)) first
      now).announced = first.ready := rfl
  refine (agrees_iff_follows es hinv fun op hop => hops op (List.mem_append_right _ hop)).trans ?_
  exact and_iff_right hann

def emptyManager : Manager := ⟨.empty, .empty, 0⟩

/- A guest that comes up while another pod's agent is started and a predecessor writes late. -/
def comingUp : List Event :=
  [.iterate ⟨false, "no lease"⟩ 1, .other (.start "ns/b"), .other (.setOwned "ns/a" 9 ⟨true, "late"⟩ 2),
   .iterate ⟨true, "ok"⟩ 3, .iterate ⟨true, "ok"⟩ 4]

theorem exposed_announced_comingUp :
    (emptyManager.startAgent "ns/a" true [] ⟨false, "booting"⟩ 0).2.announced = false ∧
    Agrees (emptyManager.startAgent "ns/a" true [] ⟨false, "booting"⟩ 0).1
      (emptyManager.startAgent "ns/a" true [] ⟨false, "booting"⟩ 0).2 comingUp :=
  ⟨rfl, (exposed_announced_iff emptyManager "ns/a" true [] ⟨false, "booting"⟩ 0 comingUp
    (by decide)).mpr (by decide)⟩

/- One failed probe of a ready pod is exposed at once. -/
theorem exposed_unannounced :
    ¬∀ (m : Manager) (key : Key) (onUpdate : Bool) (between : List Op) (first : Outcome) (now : ℕ)
      (es : List Event),
      (∀ op ∈ between ++ others es, (⟨key, m.nextAgent, onUpdate⟩ : Agent).Spares op) →
      Agrees (m.startAgent key onUpdate between first now).1
        (m.startAgent key onUpdate between first now).2 es := by
  intro h
  have hclaim := h emptyManager "ns/a" true [] ⟨true, "ok"⟩ 0 [.iterate ⟨false, "timeout"⟩ 1]
    (by decide)
  have hlast := hclaim [.iterate ⟨false, "timeout"⟩ 1] List.prefix_rfl
  revert hlast
  decide

/-! ### The announcements themselves are debounced -/

/-- While the loop counts the pod as ready, its count is that of the latest failures in a row. -/
def Counted (outs : List Bool) (l : Loop) : Prop :=
  l.lastReady = true → List.replicate l.failures false <:+ outs

theorem next_counted {l : Loop} {outs : List Bool} (h : Counted outs l) (ready : Bool) :
    Counted (outs ++ [ready]) (l.next ready).1 := by
  intro hl
  cases ready with
  | true =>
    rw [(next_cleared l).2]
    exact List.nil_suffix
  | false =>
    cases hlast : l.lastReady with
    | false => simp [Loop.next, hlast] at hl
    | true =>
      by_cases hf : l.failures + 1 ≥ defaultFailureThreshold
      · simp [Loop.next, hlast, hf] at hl
      · have hcount : (l.next false).1.failures = l.failures + 1 := by simp [Loop.next, hlast, hf]
        obtain ⟨rest, hrest⟩ := h hlast
        rw [hcount, List.replicate_succ', ← hrest, List.append_assoc]
        exact List.suffix_append _ _

theorem run_counted (es : List Event) {s : Running} {last : Bool} {outs : List Bool}
    (h : Inv ag last s) (hc : Counted outs s.loop) (hes : ∀ op ∈ others es, ag.Spares op) :
    (∃ last', Inv ag last' (ag.run s es)) ∧ Counted (outs ++ outcomes es) (ag.run s es).loop := by
  induction es generalizing s last outs with
  | nil =>
    rw [outcomes, List.append_nil]
    exact ⟨⟨last, h⟩, hc⟩
  | cons e es ih =>
    cases e with
    | iterate o now =>
      have hnext : Counted (outs ++ [o.ready]) (ag.step s (.iterate o now)).loop := by
        rw [iterate_eq h]
        exact next_counted hc o.ready
      have hrest := ih (iterate_inv h o now) hnext hes
      rw [List.append_assoc, List.singleton_append] at hrest
      exact hrest
    | other op =>
      have hop : ag.Spares op := hes op List.mem_cons_self
      exact ih (other_inv h hop) hc fun x hx => hes x (List.mem_cons_of_mem _ hx)

/-- With a callback, an announced readiness is withdrawn only by the third failure in a row. -/
theorem announced_withdrawn (es : List Event) {s : Running} {last : Bool} (h : Inv ag last s)
    (hfresh : s.loop.failures = 0) (hup : ag.onUpdate = true) (hes : ∀ op ∈ others es, ag.Spares op)
    (o : Outcome) (now : ℕ) (hready : (ag.run s es).announced = true)
    (hdrop : (ag.step (ag.run s es) (.iterate o now)).announced = false) :
    List.replicate 3 false <:+ outcomes es ++ [o.ready] := by
  have hstart : Counted [] s.loop := by
    intro _
    rw [hfresh]
    exact List.nil_suffix
  obtain ⟨⟨last', hinv⟩, hcount⟩ := run_counted es h hstart hes
  have hlast : (ag.run s es).loop.lastReady = true := (hinv.announced hup).symm.trans hready
  have hnext : ((ag.run s es).loop.next o.ready).1.lastReady = false := by
    have hann := (iterate_inv hinv o now).announced hup
    rw [hdrop, iterate_eq hinv] at hann
    exact hann.symm
  cases hr : o.ready with
  | true =>
    rw [hr, (next_cleared _).1] at hnext
    cases hnext
  | false =>
    have hfail : 3 ≤ (ag.run s es).loop.failures + 1 := by
      by_contra hlt
      rw [hr] at hnext
      simp [Loop.next, hlast, defaultFailureThreshold, hlt] at hnext
    obtain ⟨n, hn⟩ : ∃ n, (ag.run s es).loop.failures = n + 2 :=
      ⟨_, (by omega : _ = (ag.run s es).loop.failures - 2 + 2)⟩
    obtain ⟨rest, hrest⟩ := hcount hlast
    rw [List.nil_append] at hrest
    rw [← hrest, hn, List.replicate_add, ← List.append_assoc, List.append_assoc _ _ [false]]
    exact List.suffix_append _ _

end Runs
end VkCocoon.Probes
