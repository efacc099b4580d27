import Mathlib.Data.List.Basic
import Mathlib.Order.Basic

/-!
# Partial machines and pools of interleaved threads

`Machine` is a deterministic partial step function on events, so that a schedule
is a list of events and a schedule on a concrete state can be evaluated. A run is
`Guarded` when every one of its steps meets a condition on the state before it. One
machine simulates another when each step of the other is matched by a run to a
related state; `Reaches` says that there is a run to a condition.

`Program` describes concurrent code: a shared state, threads that take one atomic
step at a time (and may fork others), and environment operations. The rule
`Program.exec_stable` is the Owicki-Gries rule for it: a condition on the shared
state and one on each thread survive every run once each atomic step keeps the
thread's own condition and does not interfere with that of any other thread.
-/

namespace Lib

structure Machine (σ ε : Type) where
  step : σ → ε → Option σ

namespace Machine
variable {σ ε : Type} (M : Machine σ ε)

def exec : σ → List ε → Option σ
  | s, [] => some s
  | s, e :: es => (M.step s e).bind fun s' => exec s' es

/-- Every step the run takes meets `G` in the state it is taken from. -/
def Guarded (G : σ → ε → Prop) : σ → List ε → Prop
  | _, [] => True
  | s, e :: es => G s e ∧ ∀ s', M.step s e = some s' → Guarded G s' es

@[simp] theorem exec_nil (s : σ) : M.exec s [] = some s := rfl

theorem exec_cons (s : σ) (e : ε) (es : List ε) :
    M.exec s (e :: es) = (M.step s e).bind fun s' => M.exec s' es := rfl

theorem exec_cons_some {s s'' : σ} {e : ε} {es : List ε} :
    M.exec s (e :: es) = some s'' ↔ ∃ s', M.step s e = some s' ∧ M.exec s' es = some s'' := by
  rw [exec_cons, Option.bind_eq_some_iff]

theorem exec_append (s : σ) (xs ys : List ε) :
    M.exec s (xs ++ ys) = (M.exec s xs).bind fun s' => M.exec s' ys := by
  induction xs generalizing s with
  | nil => rfl
  | cons e es ih =>
    rw [List.cons_append, exec_cons, exec_cons]
    cases M.step s e with
    | none => rfl
    | some s' => exact ih s'

theorem exec_append_some {s s'' : σ} {xs ys : List ε} :
    M.exec s (xs ++ ys) = some s'' ↔ ∃ s', M.exec s xs = some s' ∧ M.exec s' ys = some s'' := by
  rw [exec_append, Option.bind_eq_some_iff]

theorem guarded_append (G : σ → ε → Prop) (s : σ) (xs ys : List ε) :
    M.Guarded G s (xs ++ ys) ↔
      M.Guarded G s xs ∧ ∀ s', M.exec s xs = some s' → M.Guarded G s' ys := by
  induction xs generalizing s with
  | nil => simp [Guarded]
  | cons e es ih =>
    simp only [List.cons_append, Guarded, ih, exec_cons_some]
    constructor
    · rintro ⟨hg, h⟩
      exact ⟨⟨hg, fun s' hs' => (h s' hs').1⟩, fun t ⟨s', hs', ht⟩ => (h s' hs').2 t ht⟩
    · rintro ⟨⟨hg, h⟩, hy⟩
      exact ⟨hg, fun s' hs' => ⟨h s' hs', fun t ht => hy t ⟨s', hs', ht⟩⟩⟩

theorem guarded_true (s : σ) (es : List ε) : M.Guarded (fun _ _ => True) s es := by
  induction es generalizing s with
  | nil => trivial
  | cons e es ih => exact ⟨trivial, fun s' _ => ih s'⟩

/- A guard that can be decided can be decided along a run. -/
instance decidableGuarded (G : σ → ε → Prop) [∀ s e, Decidable (G s e)] :
    ∀ s es, Decidable (M.Guarded G s es)
  | _, [] => isTrue trivial
  | s, e :: es =>
    match h : M.step s e with
    | none => decidable_of_iff (G s e)
        ⟨fun hg => ⟨hg, fun s' hs' => by rw [h] at hs'; cases hs'⟩, And.left⟩
    | some s' =>
      have := decidableGuarded G s' es
      decidable_of_iff (G s e ∧ M.Guarded G s' es)
        ⟨fun hg => ⟨hg.1, fun t ht => by rw [h] at ht; cases ht; exact hg.2⟩,
          fun hg => ⟨hg.1, hg.2 s' h⟩⟩

/-- The invariant rule for guarded runs. -/
theorem exec_invariant {G : σ → ε → Prop} {Inv : σ → Prop}
    (hstep : ∀ s e s', Inv s → G s e → M.step s e = some s' → Inv s')
    {s s' : σ} {es : List ε} (hs : Inv s) (hg : M.Guarded G s es) (h : M.exec s es = some s') :
    Inv s' := by
  induction es generalizing s with
  | nil =>
    cases h
    exact hs
  | cons e es ih =>
    obtain ⟨t, ht, hts⟩ := (M.exec_cons_some).mp h
    exact ih (hstep s e t hs hg.1 ht) (hg.2 t ht) hts

/-- Some run from `s` ends where `Q` holds. -/
def Reaches (s : σ) (Q : σ → Prop) : Prop := ∃ es s', M.exec s es = some s' ∧ Q s'

section Reaches
variable {M} {s s' : σ} {Q Q' : σ → Prop}

theorem reaches_here (h : Q s) : M.Reaches s Q := ⟨[], s, rfl, h⟩

theorem reaches_cons (e : ε) (hstep : M.step s e = some s') (h : M.Reaches s' Q) : M.Reaches s Q := by
  obtain ⟨es, s'', hexec, hq⟩ := h
  exact ⟨e :: es, s'', M.exec_cons_some.mpr ⟨s', hstep, hexec⟩, hq⟩

theorem reaches_step (e : ε) (hstep : M.step s e = some s') (h : Q s') : M.Reaches s Q :=
  reaches_cons e hstep (reaches_here h)

theorem Reaches.seq (h : M.Reaches s Q) (hnext : ∀ s', Q s' → M.Reaches s' Q') : M.Reaches s Q' := by
  obtain ⟨es, s₁, hs₁, hq⟩ := h
  obtain ⟨es', s₂, hs₂, hq'⟩ := hnext s₁ hq
  exact ⟨es ++ es', s₂, M.exec_append_some.mpr ⟨s₁, hs₁, hs₂⟩, hq'⟩

theorem Reaches.mono (h : M.Reaches s Q) (himp : ∀ s', Q s' → Q' s') : M.Reaches s Q' :=
  h.seq fun s' hq => reaches_here (himp s' hq)

end Reaches

/-- A guarded run of `M` is a run of `N` once each of its steps is one. -/
theorem exec_simulates {τ δ : Type} {N : Machine τ δ} {G : σ → ε → Prop} {R : σ → τ → Prop}
    (hstep : ∀ s e s' t, R s t → G s e → M.step s e = some s' → N.Reaches t (R s'))
    {s s' : σ} {es : List ε} {t : τ} (hr : R s t) (hg : M.Guarded G s es) (h : M.exec s es = some s') :
    N.Reaches t (R s') := by
  induction es generalizing s t with
  | nil =>
    cases h
    exact reaches_here hr
  | cons e es ih =>
    obtain ⟨s₁, hs₁, hrest⟩ := M.exec_cons_some.mp h
    exact (hstep s e s₁ t hr hg.1 hs₁).seq fun t₁ hr₁ => ih hr₁ (hg.2 s₁ hs₁) hrest

/-- What an invariant implies of a guarded step holds of every step of a guarded run. -/
theorem guarded_of_invariant {G Q : σ → ε → Prop} {Inv : σ → Prop}
    (hstep : ∀ s e s', Inv s → G s e → M.step s e = some s' → Inv s')
    (hQ : ∀ s e, Inv s → G s e → Q s e)
    {s : σ} {es : List ε} (hs : Inv s) (hg : M.Guarded G s es) : M.Guarded Q s es := by
  induction es generalizing s with
  | nil => trivial
  | cons e es ih =>
    refine ⟨hQ s e hs hg.1, fun t ht => ?_⟩
    exact ih (hstep s e t hs hg.1 ht) (hg.2 t ht)

/-- A run that can go on and gets closer to its end with every step can be brought to its end. -/
theorem exec_completes {G : σ → ε → Prop} {Inv Done : σ → Prop} (work : σ → ℕ)
    (hstep : ∀ s e s', Inv s → G s e → M.step s e = some s' → Inv s' ∧ work s' < work s)
    (hprogress : ∀ s, Inv s → ¬Done s → ∃ e s', G s e ∧ M.step s e = some s')
    {s : σ} (hs : Inv s) : ∃ es s', M.Guarded G s es ∧ M.exec s es = some s' ∧ Done s' := by
  induction hn : work s using Nat.strongRecOn generalizing s with
  | _ n ih =>
    by_cases hdone : Done s
    · exact ⟨[], s, trivial, rfl, hdone⟩
    · obtain ⟨e, t, hg, ht⟩ := hprogress s hs hdone
      obtain ⟨hinv, hless⟩ := hstep s e t hs hg ht
      obtain ⟨es, s', hges, hexec, hend⟩ := ih (work t) (by omega) hinv rfl
      refine ⟨e :: es, s', ⟨hg, fun t' ht' => ?_⟩, M.exec_cons_some.mpr ⟨t, ht, hexec⟩, hend⟩
      have hsame : t = t' := Option.some.inj (ht.symm.trans ht')
      exact hsame ▸ hges

end Machine

/-! ### Thread pools -/

structure Config (σ τ : Type) where
  shared : σ
  threads : List τ
deriving DecidableEq

inductive PoolEvent (τ χ ω : Type) where
  /-- A new thread enters the pool. -/
  | start (t : τ)
  /-- Thread `i` takes its next atomic step with the answer `a`. -/
  | run (i : ℕ) (a : χ)
  /-- An operation of the surroundings. -/
  | env (o : ω)
deriving DecidableEq

/-- A step of thread `i`. -/
def PoolEvent.runs {τ χ ω : Type} (i : ℕ) : PoolEvent τ χ ω → Bool
  | .run j _ => j == i
  | _ => false

/-- Concurrent code over a shared state. `step` is told the index of its thread. -/
structure Program (σ τ χ ω : Type) where
  entry : σ → τ → Bool
  step : σ → ℕ → τ → χ → Option (σ × τ × List τ)
  env : σ → ω → Option σ

namespace Program
variable {σ τ χ ω : Type} (P : Program σ τ χ ω)

def next (c : Config σ τ) : PoolEvent τ χ ω → Option (Config σ τ)
  | .start t => if P.entry c.shared t then some ⟨c.shared, c.threads ++ [t]⟩ else none
  | .run i a => (c.threads[i]?).bind fun t =>
      (P.step c.shared i t a).map fun r => ⟨r.1, c.threads.set i r.2.1 ++ r.2.2⟩
  | .env o => (P.env c.shared o).map fun s => ⟨s, c.threads⟩

def machine : Machine (Config σ τ) (PoolEvent τ χ ω) := ⟨P.next⟩

theorem next_start {c c' : Config σ τ} {t : τ} (h : P.next c (.start t) = some c') :
    P.entry c.shared t = true ∧ c' = ⟨c.shared, c.threads ++ [t]⟩ := by
  simp only [next] at h
  split at h
  next he =>
    cases h
    exact ⟨he, rfl⟩
  next => cases h

theorem next_run {c c' : Config σ τ} {i : ℕ} {a : χ} (h : P.next c (.run i a) = some c') :
    ∃ t s' t' new, c.threads[i]? = some t ∧ P.step c.shared i t a = some (s', t', new) ∧
      c' = ⟨s', c.threads.set i t' ++ new⟩ := by
  obtain ⟨t, ht, h⟩ := Option.bind_eq_some_iff.mp h
  obtain ⟨⟨s', t', new⟩, hs, rfl⟩ := Option.map_eq_some_iff.mp h
  exact ⟨t, s', t', new, ht, hs, rfl⟩

theorem next_run_eq {c : Config σ τ} {i : ℕ} {t t' : τ} {a : χ} {s' : σ} {new : List τ}
    (ht : c.threads[i]? = some t) (hs : P.step c.shared i t a = some (s', t', new)) :
    P.next c (.run i a) = some ⟨s', c.threads.set i t' ++ new⟩ := by
  simp only [next, ht, Option.bind_some, hs, Option.map_some]

theorem next_env {c c' : Config σ τ} {o : ω} (h : P.next c (.env o) = some c') :
    ∃ s', P.env c.shared o = some s' ∧ c' = ⟨s', c.threads⟩ := by
  obtain ⟨s', hs, rfl⟩ := Option.map_eq_some_iff.mp h
  exact ⟨s', hs, rfl⟩

theorem getElem?_moved {ts : List τ} {i : ℕ} {t : τ} (h : ts[i]? = some t) (t' : τ)
    (new : List τ) : (ts.set i t' ++ new)[i]? = some t' := by
  have hi : i < ts.length := (List.getElem?_eq_some_iff.mp h).1
  rw [List.getElem?_append_left (by rwa [List.length_set]), List.getElem?_set_self hi]

theorem drop_moved (ts : List τ) (i : ℕ) (t' : τ) (new : List τ) :
    (ts.set i t' ++ new).drop ts.length = new := by
  have hlen : (ts.set i t').length = ts.length := List.length_set
  rw [← hlen, List.drop_left]

/- A thread stands by while another event takes place. -/
theorem next_stands_by {c c' : Config σ τ} {e : PoolEvent τ χ ω} {j : ℕ} {u : τ}
    (h : P.next c e = some c') (hu : c.threads[j]? = some u) (he : ∀ a, e ≠ .run j a) :
    c'.threads[j]? = some u := by
  have hj : j < c.threads.length := (List.getElem?_eq_some_iff.mp hu).1
  cases e with
  | start t =>
    obtain ⟨-, rfl⟩ := P.next_start h
    rw [List.getElem?_append_left hj]
    exact hu
  | run i a =>
    obtain ⟨t, s', t', new, -, -, rfl⟩ := P.next_run h
    have hij : i ≠ j := fun hij => he a (by rw [hij])
    rw [List.getElem?_append_left (by rw [List.length_set]; exact hj), List.getElem?_set_ne hij]
    exact hu
  | env o =>
    obtain ⟨s', -, rfl⟩ := P.next_env h
    exact hu

/-- `I` holds of the shared state and `J` of every thread at its index. -/
def Stable (I : σ → Prop) (J : σ → ℕ → τ → Prop) (c : Config σ τ) : Prop :=
  I c.shared ∧ ∀ i t, c.threads[i]? = some t → J c.shared i t

/- A lookup after thread `i` moved: that thread, or one that stood by. -/
theorem getElem?_set_cases {ts : List τ} {i j : ℕ} {t' u : τ} (h : (ts.set i t')[j]? = some u) :
    (j = i ∧ u = t') ∨ (j ≠ i ∧ ts[j]? = some u) := by
  by_cases hij : i = j
  · subst hij
    by_cases hi : i < ts.length
    · rw [List.getElem?_set_self hi] at h
      exact Or.inl ⟨rfl, (Option.some.inj h).symm⟩
    · rw [List.getElem?_eq_none (by rw [List.length_set]; exact Nat.le_of_not_lt hi)] at h
      cases h
  · rw [List.getElem?_set_ne hij] at h
    exact Or.inr ⟨fun e => hij e.symm, h⟩

/- A lookup after threads were added: an old one, or one of the new. -/
theorem getElem?_append_cases {ts new : List τ} {j : ℕ} {u : τ} (h : (ts ++ new)[j]? = some u) :
    ts[j]? = some u ∨ (ts.length ≤ j ∧ u ∈ new) := by
  by_cases hj : j < ts.length
  · rw [List.getElem?_append_left hj] at h
    exact Or.inl h
  · rw [List.getElem?_append_right (Nat.le_of_not_lt hj)] at h
    exact Or.inr ⟨Nat.le_of_not_lt hj, List.mem_of_getElem? h⟩

theorem getElem?_snoc_cases {ts : List τ} {j : ℕ} {t u : τ} (h : (ts ++ [t])[j]? = some u) :
    ts[j]? = some u ∨ (j = ts.length ∧ u = t) := by
  rcases getElem?_append_cases h with hold | ⟨hle, hm⟩
  · exact Or.inl hold
  · have hlt : j < (ts ++ [t]).length := (List.getElem?_eq_some_iff.mp h).1
    rw [List.length_append, List.length_singleton] at hlt
    exact Or.inr ⟨by omega, List.mem_singleton.mp hm⟩

/-- Code whose threads fork no others. -/
def ofStep (entry : σ → τ → Bool) (step : σ → ℕ → τ → χ → Option (σ × τ))
    (env : σ → ω → Option σ) : Program σ τ χ ω where
  entry := entry
  step s i t a := (step s i t a).map fun r => (r.1, r.2, [])
  env := env

theorem ofStep_run {entry : σ → τ → Bool} {step : σ → ℕ → τ → χ → Option (σ × τ)}
    {env : σ → ω → Option σ} {c c' : Config σ τ} {i : ℕ} {a : χ}
    (h : (ofStep entry step env).next c (.run i a) = some c') :
    ∃ t s' t', c.threads[i]? = some t ∧ step c.shared i t a = some (s', t') ∧
      c' = ⟨s', c.threads.set i t'⟩ := by
  obtain ⟨t, s', t', new, ht, hs, rfl⟩ := (ofStep entry step env).next_run h
  obtain ⟨⟨s₁, t₁⟩, hstep, hr⟩ := Option.map_eq_some_iff.mp hs
  cases hr
  exact ⟨t, s₁, t₁, ht, hstep, by rw [List.append_nil]⟩

section OwickiGries
variable {G : Config σ τ → PoolEvent τ χ ω → Prop} {I : σ → Prop} {J : σ → ℕ → τ → Prop}

/-- The rule for one event. Each obligation may use the whole configuration before the step. -/
theorem next_stable
    (hstart : ∀ c t, Stable I J c → G c (.start t) → P.entry c.shared t = true →
      J c.shared c.threads.length t)
    (hrun : ∀ c i t a s' t' new, Stable I J c → G c (.run i a) → c.threads[i]? = some t →
      P.step c.shared i t a = some (s', t', new) →
      I s' ∧ J s' i t' ∧ (∀ j u, j ≠ i → c.threads[j]? = some u → J s' j u) ∧
        ∀ j u, c.threads.length ≤ j → u ∈ new → J s' j u)
    (henv : ∀ c o s', Stable I J c → G c (.env o) → P.env c.shared o = some s' →
      I s' ∧ ∀ j u, c.threads[j]? = some u → J s' j u)
    (c : Config σ τ) (e : PoolEvent τ χ ω) (c' : Config σ τ)
    (hc : Stable I J c) (hg : G c e) (h : P.next c e = some c') : Stable I J c' := by
  cases e with
  | start t =>
    obtain ⟨he, rfl⟩ := P.next_start h
    refine ⟨hc.1, fun j u hu => ?_⟩
    rcases getElem?_snoc_cases hu with hold | ⟨rfl, rfl⟩
    · exact hc.2 j u hold
    · exact hstart c u hc hg he
  | run i a =>
    obtain ⟨t, s', t', new, ht, hs, rfl⟩ := P.next_run h
    obtain ⟨hI, hown, hother, hnew⟩ := hrun c i t a s' t' new hc hg ht hs
    refine ⟨hI, fun j u hu => ?_⟩
    rcases getElem?_append_cases hu with hold | ⟨hle, hmem⟩
    · rcases getElem?_set_cases hold with ⟨rfl, rfl⟩ | ⟨hne, hj⟩
      · exact hown
      · exact hother j u hne hj
    · exact hnew j u (by rwa [List.length_set] at hle) hmem
  | env o =>
    obtain ⟨s', hs, rfl⟩ := P.next_env h
    exact henv c o s' hc hg hs

/-- The rule for guarded runs. -/
theorem exec_stable
    (hnext : ∀ c e c', Stable I J c → G c e → P.next c e = some c' → Stable I J c')
    {c c' : Config σ τ} {es : List (PoolEvent τ χ ω)} (hc : Stable I J c)
    (hg : P.machine.Guarded G c es) (h : P.machine.exec c es = some c') : Stable I J c' :=
  P.machine.exec_invariant hnext hc hg h

end OwickiGries

/-! ### Threads that own something -/

section Apart
variable {α : Type} {f : τ → Option α}

/-- No two threads own the same: `f` says what a thread owns. -/
def Apart (f : τ → Option α) (c : Config σ τ) : Prop :=
  ∀ (i j : ℕ) t u x, c.threads[i]? = some t → c.threads[j]? = some u → f t = some x → f u = some x → i = j

/- Threads keep what they own or give it up, and at most one new thread at a time owns something
that nobody else owns. -/
theorem next_apart (hstart : ∀ s t, P.entry s t = true → f t = none)
    (hrun : ∀ s i t a s' t' new, P.step s i t a = some (s', t', new) →
      (∀ x, f t' = some x → f t = some x) ∧ ∀ u ∈ new, ∀ x, f u = some x → new = [u])
    {c c' : Config σ τ} {e : PoolEvent τ χ ω} (hc : Apart f c) (h : P.next c e = some c')
    (hnew : ∀ u ∈ c'.threads.drop c.threads.length, ∀ x, f u = some x →
      ∀ t ∈ c.threads, f t ≠ some x) : Apart f c' := by
  have hcases : ∀ j u x, c'.threads[j]? = some u → f u = some x →
      (∃ t, c.threads[j]? = some t ∧ f t = some x) ∨
      (j = c.threads.length ∧ ∀ t ∈ c.threads, f t ≠ some x) := by
    intro j u x hu hx
    cases e with
    | start t =>
      obtain ⟨he, rfl⟩ := P.next_start h
      rcases getElem?_snoc_cases hu with hold | ⟨-, rfl⟩
      · exact Or.inl ⟨u, hold, hx⟩
      · rw [hstart _ _ he] at hx
        cases hx
    | run i a =>
      obtain ⟨t, s', t', new, ht, hs, rfl⟩ := P.next_run h
      obtain ⟨hmove, hfork⟩ := hrun _ _ _ _ _ _ _ hs
      rcases getElem?_append_cases hu with hold | ⟨hle, hm⟩
      · rcases getElem?_set_cases hold with ⟨rfl, rfl⟩ | ⟨-, hj⟩
        · exact Or.inl ⟨t, ht, hmove x hx⟩
        · exact Or.inl ⟨u, hj, hx⟩
      · right
        have hlt : j < (c.threads.set i t' ++ new).length := (List.getElem?_eq_some_iff.mp hu).1
        rw [hfork u hm x hx] at hlt
        rw [List.length_append, List.length_set, List.length_singleton] at hlt
        rw [List.length_set] at hle
        refine ⟨by omega, hnew u ?_ x hx⟩
        rw [drop_moved]
        exact hm
    | env o =>
      obtain ⟨s', -, rfl⟩ := P.next_env h
      exact Or.inl ⟨u, hu, hx⟩
  intro i j t u x ht hu hx hy
  rcases hcases i t x ht hx with ⟨t₀, ht₀, hx₀⟩ | ⟨hi, hno⟩ <;>
    rcases hcases j u x hu hy with ⟨u₀, hu₀, hy₀⟩ | ⟨hj, hno'⟩
  · exact hc i j t₀ u₀ x ht₀ hu₀ hx₀ hy₀
  · exact absurd hx₀ (hno' t₀ (List.mem_of_getElem? ht₀))
  · exact absurd hy₀ (hno u₀ (List.mem_of_getElem? hu₀))
  · rw [hi, hj]

end Apart

/-! ### Threads two by two -/

section Pairwise
variable {R : τ → τ → Prop} {G : Config σ τ → PoolEvent τ χ ω → Prop}

/-- Any two threads are related. -/
def Pairwise (R : τ → τ → Prop) (c : Config σ τ) : Prop :=
  ∀ (i j : ℕ) t u, i ≠ j → c.threads[i]? = some t → c.threads[j]? = some u → R t u

/-- The rule for one event: a step keeps its thread related to the ones that stand by, and new
threads are related to every other. -/
theorem next_pairwise (hstart : ∀ s t, P.entry s t = true → ∀ u, R t u ∧ R u t)
    (hrun : ∀ c i t a s' t' new, G c (.run i a) → c.threads[i]? = some t →
      P.step c.shared i t a = some (s', t', new) →
      (∀ j u, j ≠ i → c.threads[j]? = some u → R t u → R u t → R t' u ∧ R u t') ∧
        ∀ v ∈ new, ∀ u, R v u ∧ R u v)
    (c : Config σ τ) (e : PoolEvent τ χ ω) (c' : Config σ τ)
    (hc : Pairwise R c) (hg : G c e) (h : P.next c e = some c') : Pairwise R c' := by
  cases e with
  | start t =>
    obtain ⟨he, rfl⟩ := P.next_start h
    intro i j u v hij hu hv
    rcases getElem?_snoc_cases hu with hi | ⟨-, rfl⟩
    · rcases getElem?_snoc_cases hv with hj | ⟨-, rfl⟩
      · exact hc i j u v hij hi hj
      · exact (hstart _ _ he u).2
    · exact (hstart _ _ he v).1
  | run i a =>
    obtain ⟨t, s', t', new, ht, hs, rfl⟩ := P.next_run h
    obtain ⟨hkeep, hnew⟩ := hrun c i t a s' t' new hg ht hs
    intro j k u v hjk hu hv
    rcases getElem?_append_cases hu with hu' | ⟨-, hu'⟩
    · rcases getElem?_append_cases hv with hv' | ⟨-, hv'⟩
      · rcases getElem?_set_cases hu' with ⟨rfl, rfl⟩ | ⟨hj, hold⟩
        · rcases getElem?_set_cases hv' with ⟨rfl, rfl⟩ | ⟨hk, hold⟩
          · exact absurd rfl hjk
          · exact (hkeep k v hk hold (hc j k t v hjk ht hold) (hc k j v t hk hold ht)).1
        · rcases getElem?_set_cases hv' with ⟨rfl, rfl⟩ | ⟨hk, hold'⟩
          · exact (hkeep j u hj hold (hc k j t u hj.symm ht hold) (hc j k u t hj hold ht)).2
          · exact hc j k u v hjk hold hold'
      · exact (hnew v hv' u).2
    · exact (hnew u hu' v).1
  | env o =>
    obtain ⟨s', -, rfl⟩ := P.next_env h
    exact hc

end Pairwise

/-! ### Threads that hold locks -/

section Locks
variable {α : Type} {f : τ → Option α} {up : σ → α → Prop}

/-- `f` says which lock a thread holds and `up` which locks are taken: a lock that is held is
taken, and held once. -/
structure Locked (f : τ → Option α) (up : σ → α → Prop) (c : Config σ τ) : Prop where
  held : ∀ (i : ℕ) t x, c.threads[i]? = some t → f t = some x → up c.shared x
  apart : Apart f c

/-- A step keeps the lock of its thread, takes a free one, or gives its own back. -/
inductive LockMove (up up' : α → Prop) (own own' : Option α) : Prop where
  | keep (h : own' = own) (hup : ∀ x, up x → up' x)
  | take (x : α) (h : own = none) (h' : own' = some x) (free : ¬ up x)
      (hup : ∀ y, y = x ∨ up y → up' y)
  | give (x : α) (h : own = some x) (h' : own' = none) (hup : ∀ y, y ≠ x → up y → up' y)

theorem LockMove.of_other {up up' : α → Prop} {own own' : Option α} {x : α}
    (h : LockMove up up' own own') (hup : up x) (hne : own ≠ some x) : up' x ∧ own' ≠ some x := by
  cases h with
  | keep h hk => exact ⟨hk x hup, by rwa [h]⟩
  | take y _ h' hfree hk =>
    refine ⟨hk x (Or.inr hup), ?_⟩
    rw [h']
    rintro ⟨⟩
    exact hfree hup
  | give y h h' hk =>
    refine ⟨hk x ?_ hup, by rw [h']; rintro ⟨⟩⟩
    rintro rfl
    exact hne h

theorem LockMove.of_own {up up' : α → Prop} {own own' : Option α} {x : α}
    (h : LockMove up up' own own') (hheld : ∀ y, own = some y → up y) (hx : own' = some x) :
    up' x := by
  cases h with
  | keep h hk => exact hk x (hheld x (h ▸ hx))
  | take y _ h' _ hk =>
    rw [h'] at hx
    cases hx
    exact hk x (Or.inl rfl)
  | give y _ h' _ =>
    rw [h'] at hx
    cases hx

theorem next_locked (hstart : ∀ s t, P.entry s t = true → f t = none)
    (hrun : ∀ s i t a s' t' new, P.step s i t a = some (s', t', new) →
      LockMove (up s) (up s') (f t) (f t') ∧ ∀ u ∈ new, f u = none)
    (henv : ∀ s o s', P.env s o = some s' → ∀ x, up s x → up s' x)
    {c c' : Config σ τ} {e : PoolEvent τ χ ω} (hc : Locked f up c) (h : P.next c e = some c') :
    Locked f up c' := by
  cases e with
  | start t =>
    obtain ⟨he, rfl⟩ := P.next_start h
    have hold : ∀ (j : ℕ) u x, (c.threads ++ [t])[j]? = some u → f u = some x →
        c.threads[j]? = some u := by
      intro j u x hu hx
      rcases getElem?_snoc_cases hu with hu | ⟨-, rfl⟩
      · exact hu
      · rw [hstart _ _ he] at hx
        cases hx
    constructor
    · intro j u x hu hx
      exact hc.held j u x (hold j u x hu hx) hx
    · intro j l u v x hu hv hx hy
      exact hc.apart j l u v x (hold j u x hu hx) (hold l v x hv hy) hx hy
  | run i a =>
    obtain ⟨t, s', t', new, ht, hs, rfl⟩ := P.next_run h
    obtain ⟨hmove, hfork⟩ := hrun _ _ _ _ _ _ _ hs
    have hcases : ∀ (j : ℕ) u x, (c.threads.set i t' ++ new)[j]? = some u → f u = some x →
        (j = i ∧ u = t') ∨ (j ≠ i ∧ c.threads[j]? = some u) := by
      intro j u x hu hx
      rcases getElem?_append_cases hu with hold | ⟨-, hm⟩
      · exact getElem?_set_cases hold
      · rw [hfork u hm] at hx
        cases hx
    -- what a thread that stood by holds is neither given back nor taken by the one that moved
    have hother : ∀ (j : ℕ) u x, j ≠ i → c.threads[j]? = some u → f u = some x →
        up s' x ∧ f t' ≠ some x := by
      intro j u x hj hu hx
      refine hmove.of_other (hc.held j u x hu hx) fun hown => ?_
      exact hj (hc.apart j i u t x hu ht hx hown)
    constructor
    · intro j u x hu hx
      rcases hcases j u x hu hx with ⟨rfl, rfl⟩ | ⟨hj, hu⟩
      · exact hmove.of_own (fun y hy => hc.held j t y ht hy) hx
      · exact (hother j u x hj hu hx).1
    · intro j l u v x hu hv hx hy
      rcases hcases j u x hu hx with ⟨rfl, rfl⟩ | ⟨hj, hu'⟩ <;>
        rcases hcases l v x hv hy with ⟨rfl, rfl⟩ | ⟨hl, hv'⟩
      · rfl
      · exact absurd hx (hother l v x hl hv' hy).2
      · exact absurd hy (hother j u x hj hu' hx).2
      · exact hc.apart j l u v x hu' hv' hx hy
  | env o =>
    obtain ⟨s', hs, rfl⟩ := P.next_env h
    exact ⟨fun j u x hu hx => henv _ _ _ hs x (hc.held j u x hu hx), hc.apart⟩

end Locks

/-! ### History variables -/

section Record
variable {η : Type} (log : σ → τ → χ → σ → τ → η → η) (logEnv : σ → ω → σ → η → η)

/-- The program with a value beside the shared state that takes notes of the steps. -/
def record : Program (σ × η) τ χ ω where
  entry s t := P.entry s.1 t
  step s i t a := (P.step s.1 i t a).map fun r => ((r.1, log s.1 t a r.1 r.2.1 s.2), r.2.1, r.2.2)
  env s o := (P.env s.1 o).map fun s' => (s', logEnv s.1 o s' s.2)

theorem record_step {s s' : σ × η} {i : ℕ} {t t' : τ} {a : χ} {new : List τ}
    (h : (P.record log logEnv).step s i t a = some (s', t', new)) :
    P.step s.1 i t a = some (s'.1, t', new) ∧ s'.2 = log s.1 t a s'.1 t' s.2 := by
  obtain ⟨r, hr, heq⟩ := Option.map_eq_some_iff.mp h
  cases heq
  exact ⟨hr, rfl⟩

theorem record_env {s s' : σ × η} {o : ω} (h : (P.record log logEnv).env s o = some s') :
    P.env s.1 o = some s'.1 ∧ s'.2 = logEnv s.1 o s'.1 s.2 := by
  obtain ⟨r, hr, heq⟩ := Option.map_eq_some_iff.mp h
  cases heq
  exact ⟨hr, rfl⟩

def erase (c : Config (σ × η) τ) : Config σ τ := ⟨c.shared.1, c.threads⟩

theorem record_next (c : Config (σ × η) τ) (e : PoolEvent τ χ ω) :
    ((P.record log logEnv).next c e).map erase = P.next (erase c) e := by
  cases e with
  | start t =>
    have he : (P.record log logEnv).entry c.shared t = P.entry (erase c).shared t := rfl
    simp only [next, he]
    split <;> rfl
  | run i a =>
    simp only [next, record, erase]
    cases c.threads[i]? with
    | none => rfl
    | some t =>
      simp only [Option.bind_some, Option.map_map]
      rfl
  | env o =>
    simp only [next, record, erase, Option.map_map]
    rfl

/-- The notes change no run. -/
theorem record_exec (c : Config (σ × η) τ) (es : List (PoolEvent τ χ ω)) :
    ((P.record log logEnv).machine.exec c es).map erase =
      P.machine.exec (erase c) es := by
  induction es generalizing c with
  | nil => rfl
  | cons e es ih =>
    have hnext := P.record_next log logEnv c e
    simp only [Machine.exec_cons, machine] at ih ⊢
    rw [← hnext]
    cases (P.record log logEnv).next c e with
    | none => rfl
    | some c' => exact ih c'

end Record

/-! ### Notes of a thread -/

section Annotate
variable {η : Type} [DecidableEq η] (note : τ → τ → η → η) (blank : η)

/-- The program whose threads each carry a value that takes notes of their own steps. -/
def annotate : Program σ (τ × η) χ ω where
  entry s t := P.entry s t.1 && decide (t.2 = blank)
  step s i t a := (P.step s i t.1 a).map fun r =>
    (r.1, (r.2.1, note t.1 r.2.1 t.2), r.2.2.map fun u => (u, blank))
  env := P.env

theorem annotate_step {s s' : σ} {i : ℕ} {t t' : τ × η} {a : χ} {new : List (τ × η)}
    (h : (P.annotate note blank).step s i t a = some (s', t', new)) :
    ∃ forked, P.step s i t.1 a = some (s', t'.1, forked) ∧ t'.2 = note t.1 t'.1 t.2 ∧
      new = forked.map fun u => (u, blank) := by
  obtain ⟨r, hr, heq⟩ := Option.map_eq_some_iff.mp h
  cases heq
  exact ⟨r.2.2, hr, rfl, rfl⟩

end Annotate

/-! ### Threads that end -/

section Ranked

/-- A thread whose own steps lower its rank takes no more of them than the rank it began with. -/
theorem exec_ranked {K : τ → Prop} {rank : τ → ℕ}
    (hstep : ∀ s i t a s' t' new, P.step s i t a = some (s', t', new) → K t → K t' ∧ rank t' < rank t)
    {c c' : Config σ τ} {es : List (PoolEvent τ χ ω)} (h : P.machine.exec c es = some c') {i : ℕ} {t : τ}
    (ht : c.threads[i]? = some t) (hk : K t) :
    ∃ t', c'.threads[i]? = some t' ∧ K t' ∧ es.countP (·.runs i) + rank t' ≤ rank t := by
  induction es generalizing c t with
  | nil =>
    cases h
    exact ⟨t, ht, hk, by simp⟩
  | cons e es ih =>
    obtain ⟨c₁, hnext, hrest⟩ := P.machine.exec_cons_some.mp h
    by_cases hrun : ∃ a, e = .run i a
    · obtain ⟨a, rfl⟩ := hrun
      obtain ⟨t₀, s', t₁, new, ht₀, hs, rfl⟩ := P.next_run hnext
      cases ht.symm.trans ht₀
      obtain ⟨hk₁, hless⟩ := hstep _ _ _ _ _ _ _ hs hk
      obtain ⟨t', ht', hk', hcount⟩ := ih hrest (getElem?_moved ht t₁ new) hk₁
      refine ⟨t', ht', hk', ?_⟩
      rw [List.countP_cons_of_pos (by simp [PoolEvent.runs])]
      omega
    · have hstay := P.next_stands_by hnext ht fun a he => hrun ⟨a, he⟩
      obtain ⟨t', ht', hk', hcount⟩ := ih hrest hstay hk
      refine ⟨t', ht', hk', ?_⟩
      have hnot : e.runs i ≠ true := by
        cases e with
        | run j a => exact fun hj => hrun ⟨a, by rw [beq_iff_eq.mp hj]⟩
        | _ => exact Bool.false_ne_true
      rwa [List.countP_cons_of_neg hnot]

end Ranked

/-! ### A thread that moves alone -/

section Alone

end Alone

end Program
end Lib
