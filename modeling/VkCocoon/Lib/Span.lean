import Mathlib.Algebra.Order.Ring.Int
import Mathlib.Data.List.Basic

/-!
# Runs of half-open spans

A list of spans that lie one after the other between two bounds, and the positions
it covers.
-/

namespace Lib

structure Span where
  start : ℤ
  stop : ℤ
deriving DecidableEq, Repr

namespace Span

def Has (s : Span) (i : ℤ) : Prop := s.start ≤ i ∧ i < s.stop

def Covers (l : List Span) (i : ℤ) : Prop := ∃ s ∈ l, s.Has i

/-- The spans of `l` are not empty, lie inside `[lo, hi)` and follow one another. -/
structure Runs (lo hi : ℤ) (l : List Span) : Prop where
  ordered : l.Pairwise fun a b => a.stop ≤ b.start
  inside : ∀ s ∈ l, lo ≤ s.start ∧ s.start < s.stop ∧ s.stop ≤ hi

variable {lo mid hi : ℤ} {l l' : List Span} {s : Span} {i : ℤ}

theorem runs_nil : Runs lo hi [] := ⟨List.Pairwise.nil, fun _ h => by cases h⟩

theorem covers_append : Covers (l ++ l') i ↔ Covers l i ∨ Covers l' i := by
  simp only [Covers, List.mem_append, or_and_right, exists_or]

theorem covers_cons : Covers (s :: l) i ↔ s.Has i ∨ Covers l i := by
  simp only [Covers, List.mem_cons, or_and_right, exists_or, exists_eq_left]

theorem Runs.append (h : Runs lo mid l) (h' : Runs mid hi l') (hlo : lo ≤ mid) (hhi : mid ≤ hi) :
    Runs lo hi (l ++ l') := by
  constructor
  · rw [List.pairwise_append]
    refine ⟨h.ordered, h'.ordered, fun a ha b hb => ?_⟩
    have hstop := (h.inside a ha).2.2
    have hstart := (h'.inside b hb).1
    omega
  · intro s hs
    rcases List.mem_append.mp hs with hs | hs
    · obtain ⟨h1, h2, h3⟩ := h.inside s hs
      exact ⟨h1, h2, by omega⟩
    · obtain ⟨h1, h2, h3⟩ := h'.inside s hs
      exact ⟨by omega, h2, h3⟩

theorem runs_singleton (h : lo ≤ s.start) (hs : s.start < s.stop) (h' : s.stop ≤ hi) :
    Runs lo hi [s] := by
  refine ⟨List.pairwise_singleton _ s, fun t ht => ?_⟩
  rw [List.mem_singleton] at ht
  subst ht
  exact ⟨h, hs, h'⟩

theorem Runs.eq_nil (h : Runs lo hi l) (hle : hi ≤ lo) : l = [] := by
  cases l with
  | nil => rfl
  | cons s l =>
    obtain ⟨h1, h2, h3⟩ := h.inside s List.mem_cons_self
    omega

/- The first span of a run, and the rest of it. -/
theorem Runs.uncons (h : Runs lo hi (s :: l)) :
    lo ≤ s.start ∧ s.start < s.stop ∧ s.stop ≤ hi ∧ Runs s.stop hi l := by
  obtain ⟨h1, h2, h3⟩ := h.inside s List.mem_cons_self
  refine ⟨h1, h2, h3, (List.pairwise_cons.mp h.ordered).2, fun t ht => ?_⟩
  obtain ⟨-, ht2, ht3⟩ := h.inside t (List.mem_cons_of_mem s ht)
  exact ⟨(List.pairwise_cons.mp h.ordered).1 t ht, ht2, ht3⟩

/- The last span of a run, and what comes before it. -/
theorem Runs.unsnoc (h : Runs lo hi (l ++ [s])) :
    lo ≤ s.start ∧ s.start < s.stop ∧ s.stop ≤ hi ∧ Runs lo s.start l := by
  obtain ⟨h1, h2, h3⟩ := h.inside s (by simp)
  obtain ⟨hl, -, hls⟩ := List.pairwise_append.mp h.ordered
  refine ⟨h1, h2, h3, hl, fun t ht => ?_⟩
  obtain ⟨ht1, ht2, -⟩ := h.inside t (List.mem_append_left _ ht)
  exact ⟨ht1, ht2, hls t ht s (List.mem_singleton_self s)⟩

end Span
end Lib
