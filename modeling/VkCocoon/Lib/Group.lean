import VkCocoon.Lib.Pool

/-!
# Counting the threads of a pool

How many threads have a property, and how the number changes when one thread moves and
forks others. A wait group is a counter that agrees with such a number: `Counted` is
kept by a step that adds to the counter what it forks and takes off what ends.
-/

namespace Lib.Program
variable {σ τ χ ω : Type} {p : τ → Bool}

def indicator (b : Bool) : ℕ := if b then 1 else 0

@[simp] theorem indicator_true : indicator true = 1 := rfl
@[simp] theorem indicator_false : indicator false = 0 := rfl

theorem countP_cons_indicator (t : τ) (ts : List τ) :
    (t :: ts).countP p = ts.countP p + indicator (p t) := by
  cases h : p t <;> simp [h]

theorem countP_set_indicator {ts : List τ} {i : ℕ} {t : τ} (h : ts[i]? = some t) (t' : τ) :
    (ts.set i t').countP p + indicator (p t) = ts.countP p + indicator (p t') := by
  induction ts generalizing i with
  | nil => simp at h
  | cons u ts ih =>
    cases i with
    | zero =>
      simp only [List.getElem?_cons_zero, Option.some.injEq] at h
      subst h
      simp only [List.set_cons_zero, countP_cons_indicator]
      omega
    | succ i =>
      have htail := ih (List.getElem?_cons_succ ▸ h)
      simp only [List.set_cons_succ, countP_cons_indicator]
      omega

/-- How a count changes when thread `i` moves and forks `new`. -/
theorem countP_moved {ts : List τ} {i : ℕ} {t : τ} (h : ts[i]? = some t) (t' : τ) (new : List τ) :
    (ts.set i t' ++ new).countP p + indicator (p t) =
      ts.countP p + indicator (p t') + new.countP p := by
  have hset := countP_set_indicator (p := p) h t'
  rw [List.countP_append]
  omega

/-- A property that at most one thread has. -/
theorem eq_of_countP_le_one {ts : List τ} (hone : ts.countP p ≤ 1) {i j : ℕ} {t u : τ}
    (hi : ts[i]? = some t) (hj : ts[j]? = some u) (ht : p t = true) (hu : p u = true) : i = j := by
  induction ts generalizing i j with
  | nil => simp at hi
  | cons v ts ih =>
    rw [countP_cons_indicator] at hone
    have hpos : ∀ {k : ℕ} {w : τ}, ts[k]? = some w → p w = true → 0 < ts.countP p :=
      fun hk hw => List.countP_pos_iff.mpr ⟨_, List.mem_of_getElem? hk, hw⟩
    cases i with
    | zero =>
      cases j with
      | zero => rfl
      | succ j =>
        simp only [List.getElem?_cons_zero, Option.some.injEq] at hi
        subst hi
        rw [List.getElem?_cons_succ] at hj
        have := hpos hj hu
        simp only [ht, indicator_true] at hone
        omega
    | succ i =>
      rw [List.getElem?_cons_succ] at hi
      cases j with
      | zero =>
        simp only [List.getElem?_cons_zero, Option.some.injEq] at hj
        subst hj
        have := hpos hi ht
        simp only [hu, indicator_true] at hone
        omega
      | succ j =>
        rw [List.getElem?_cons_succ] at hj
        have htail := ih (by omega) hi hj
        omega

theorem exists_of_countP_pos {ts : List τ} (h : 0 < ts.countP p) :
    ∃ (i : ℕ) (t : τ), ts[i]? = some t ∧ p t = true := by
  obtain ⟨t, ht, hp⟩ := List.countP_pos_iff.mp h
  obtain ⟨i, hi⟩ := List.getElem?_of_mem ht
  exact ⟨i, t, hi, hp⟩

/-! ### Wait groups -/

/-- The counter has the number of the threads in the group. -/
def Counted (p : τ → Bool) (count : σ → ℕ) (c : Config σ τ) : Prop :=
  count c.shared = c.threads.countP p

theorem next_counted (P : Program σ τ χ ω) {count : σ → ℕ}
    (hstart : ∀ s t, P.entry s t = true → p t = false)
    (hrun : ∀ s i t a s' t' new, P.step s i t a = some (s', t', new) → (p t = true → 0 < count s) →
      count s' + indicator (p t) = count s + indicator (p t') + new.countP p)
    (henv : ∀ s o s', P.env s o = some s' → count s' = count s)
    {c c' : Config σ τ} {e : PoolEvent τ χ ω} (hc : Counted p count c) (h : P.next c e = some c') :
    Counted p count c' := by
  unfold Counted at hc ⊢
  cases e with
  | start t =>
    obtain ⟨he, rfl⟩ := P.next_start h
    simp [List.countP_append, hstart _ _ he, hc]
  | run i a =>
    obtain ⟨t, s', t', new, ht, hs, rfl⟩ := P.next_run h
    have hmem : p t = true → 0 < count c.shared := fun hp => by
      rw [hc]
      exact List.countP_pos_iff.mpr ⟨t, List.mem_of_getElem? ht, hp⟩
    have hstep := hrun _ _ _ _ _ _ _ hs hmem
    have hmoved := countP_moved (p := p) ht t' new
    dsimp only
    omega
  | env o =>
    obtain ⟨s', hs, rfl⟩ := P.next_env h
    rw [← hc]
    exact henv _ _ _ hs

/-! ### Work left -/

end Lib.Program
