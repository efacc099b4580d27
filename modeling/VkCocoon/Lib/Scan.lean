import Mathlib.Data.List.Basic

/-!
# Scanning a text

A pattern is a function that consumes a beginning of the text; `findAll` collects its matches
from left to right, each after the end of the one before it.  `occurs` looks for a word anywhere,
`words` cuts a text at its separators.
-/

namespace Lib.Scan
variable {α β : Type}

/-- What follows the word at the beginning of the text. -/
def lit [DecidableEq α] : List α → List α → Option (List α)
  | [], t => some t
  | _ :: _, [] => none
  | a :: w, b :: t => if a = b then lit w t else none

/-- The longest run of `p` at the beginning, which has to be there, and what follows it. -/
def many1 (p : α → Bool) (t : List α) : Option (List α × List α) :=
  if (t.takeWhile p).isEmpty then none else some (t.takeWhile p, t.dropWhile p)

/- `fuel` bounds the recursion, the length of the text is enough. -/
def findAll (m : List α → Option (β × List α)) : ℕ → List α → List β
  | 0, _ => []
  | _ + 1, [] => []
  | fuel + 1, c :: t =>
    match m (c :: t) with
    | some (b, rest) => b :: findAll m fuel rest
    | none => findAll m fuel t

def occurs [DecidableEq α] (w : List α) : List α → Bool
  | [] => w.isEmpty
  | c :: t => (lit w (c :: t)).isSome || occurs w t

/-- The text around the first occurrence of a word. -/
def cut [DecidableEq α] (w : List α) : List α → Option (List α × List α)
  | [] => (lit w []).map fun r => ([], r)
  | c :: t =>
    match lit w (c :: t) with
    | some r => some ([], r)
    | none => (cut w t).map fun p => (c :: p.1, p.2)

def words (sep : α → Bool) (t : List α) : List (List α) :=
  (t.splitOnP sep).filter fun w => !w.isEmpty

section Patterns
variable [DecidableEq α]

theorem lit_append (w t : List α) : lit w (w ++ t) = some t := by
  induction w with
  | nil => rfl
  | cons a w ih => simp only [List.cons_append, lit, if_true, ih]

theorem eq_append_of_lit {w t r : List α} (h : lit w t = some r) : t = w ++ r := by
  induction w generalizing t with
  | nil => simpa [lit] using h
  | cons a w ih =>
    cases t with
    | nil => simp [lit] at h
    | cons b t =>
      by_cases hab : a = b
      · simp only [lit, hab, if_true] at h
        rw [hab, ih h, List.cons_append]
      · simp [lit, hab] at h

theorem lit_ne {a c : α} (w t : List α) (h : a ≠ c) : lit (a :: w) (c :: t) = none := by
  simp [lit, h]

end Patterns

theorem many1_append {p : α → Bool} {w t : List α} (hw : w ≠ []) (hp : ∀ c ∈ w, p c = true)
    (ht : t.head?.all fun c => !p c) : many1 p (w ++ t) = some (w, t) := by
  have htake : t.takeWhile p = [] := by
    cases t with
    | nil => rfl
    | cons c t => simpa [List.takeWhile_cons] using ht
  have hdrop : t.dropWhile p = t := by
    cases t with
    | nil => rfl
    | cons c t =>
      have hc : p c = false := by simpa using ht
      simp [hc]
  simp [many1, List.takeWhile_append_of_pos hp, List.dropWhile_append_of_pos hp, htake, hdrop, hw]

/-! ### Matches and what stands between them -/

section FindAll
variable {m : List α → Option (β × List α)}

theorem findAll_nil (fuel : ℕ) : findAll m fuel [] = [] := by
  cases fuel with
  | zero => rfl
  | succ fuel => rfl

/-- Where no match can begin with one of the characters of `u`, the search goes on after it. -/
theorem findAll_skip {u t : List α} (hu : ∀ c ∈ u, ∀ t, m (c :: t) = none) (fuel : ℕ) :
    findAll m (u.length + fuel) (u ++ t) = findAll m fuel t := by
  induction u with
  | nil => simp
  | cons c u ih =>
    have hfuel : (c :: u).length + fuel = (u.length + fuel) + 1 := by
      simp only [List.length_cons]
      omega
    rw [hfuel, List.cons_append, findAll, hu c (by simp) (u ++ t)]
    exact ih fun c' hc' => hu c' (by simp [hc'])

theorem findAll_hit {t rest : List α} {b : β} (h : m t = some (b, rest)) (ht : t ≠ []) (fuel : ℕ) :
    findAll m (fuel + 1) t = b :: findAll m fuel rest := by
  cases t with
  | nil => exact absurd rfl ht
  | cons c t => simp only [findAll, h]

end FindAll

/-! ### Occurrences -/

section Occurs
variable [DecidableEq α]

theorem occurs_append (w u t : List α) : occurs w (u ++ (w ++ t)) = true := by
  induction u with
  | nil =>
    cases hw : w ++ t with
    | nil =>
      have hnil : w = [] := (List.append_eq_nil_iff.mp hw).1
      simp [hnil, occurs]
    | cons c r =>
      have hlit : lit w (c :: r) = some t := by rw [← hw, lit_append]
      simp [occurs, hlit]
  | cons c u ih => simp [occurs, ih]

theorem mem_of_occurs {w t : List α} {a : α} (h : occurs w t = true) (ha : a ∈ w) : a ∈ t := by
  induction t with
  | nil =>
    have hw : w = [] := by simpa [occurs] using h
    simp [hw] at ha
  | cons c t ih =>
    simp only [occurs, Bool.or_eq_true] at h
    obtain h | h := h
    · obtain ⟨r, hr⟩ := Option.isSome_iff_exists.mp h
      rw [eq_append_of_lit hr]
      exact List.mem_append_left r ha
    · exact List.mem_cons_of_mem c (ih h)

theorem cut_eq_none {w t : List α} (h : occurs w t = false) : cut w t = none := by
  induction t with
  | nil =>
    cases w with
    | nil => simp [occurs] at h
    | cons a w => rfl
  | cons c t ih =>
    simp only [occurs, Bool.or_eq_false_iff, Option.isSome_eq_false_iff, Option.isNone_iff_eq_none] at h
    rw [cut, h.1, ih h.2]
    rfl

/-- The word is not found before its first occurrence. -/
theorem cut_append {w u : List α} (hw : w ≠ []) (h : occurs w (u ++ w.dropLast) = false) (t : List α) :
    cut w (u ++ (w ++ t)) = some (u, t) := by
  induction u with
  | nil =>
    cases hwt : [] ++ (w ++ t) with
    | nil => simp [hw] at hwt
    | cons c r =>
      rw [List.nil_append] at hwt
      rw [cut, ← hwt, lit_append]
  | cons c u ih =>
    rw [List.cons_append, occurs, Bool.or_eq_false_iff] at h
    have hnone : lit w (c :: (u ++ (w ++ t))) = none := by
      cases hlit : lit w (c :: (u ++ (w ++ t))) with
      | none => rfl
      | some r =>
        exfalso
        -- an occurrence at this place would end before the last character of `w`
        have heq := eq_append_of_lit hlit
        have hbefore : w <+: c :: (u ++ (w ++ t)) := ⟨r, heq.symm⟩
        have hshort : c :: (u ++ w.dropLast) <+: c :: (u ++ (w ++ t)) := by
          refine ⟨[w.getLast hw] ++ t, ?_⟩
          conv_rhs => rw [← List.dropLast_append_getLast hw]
          simp
        have hlen : w.length ≤ (c :: (u ++ w.dropLast)).length := by
          have hpos : 0 < w.length := List.length_pos_iff.mpr hw
          simp only [List.length_cons, List.length_append, List.length_dropLast]
          omega
        have hpre := List.prefix_of_prefix_length_le hbefore hshort hlen
        obtain ⟨r', hr'⟩ := hpre
        rw [← hr', lit_append] at h
        exact absurd h.1 (by simp)
    rw [List.cons_append, cut, hnone, ih h.2]
    rfl

/-- A beginning of `u ++ w` in which `w` occurs is all of it, if the last character of `w` is not
in `u` and once in `w`. -/
theorem eq_of_occurs_of_prefix {u w r t : List α} {a : α} (hu : a ∉ u) (hw : a ∉ w)
    (hr : r ++ t = u ++ (w ++ [a])) (h : occurs (w ++ [a]) r = true) : t = [] := by
  have ha : a ∈ r := mem_of_occurs h (by simp)
  rcases List.eq_nil_or_concat t with rfl | ⟨t', b, rfl⟩
  · rfl
  · exfalso
    have hcut : r ++ t' = u ++ w ∧ b = a := by
      have heq : (r ++ t') ++ [b] = (u ++ w) ++ [a] := by simpa using hr
      simpa using List.append_inj' heq rfl
    have hmem : a ∈ u ++ w := by
      rw [← hcut.1]
      exact List.mem_append_left t' ha
    rcases List.mem_append.mp hmem with h' | h'
    · exact hu h'
    · exact hw h'

end Occurs

/-! ### Words -/

section Words
variable {sep : α → Bool}

theorem words_cons {w t : List α} {c : α} (hw : w ≠ []) (hsep : ∀ a ∈ w, sep a = false)
    (hc : sep c = true) : words sep (w ++ c :: t) = w :: words sep t := by
  rw [words, List.splitOnP_append_cons_of_forall_mem hsep c hc]
  simp [words, hw]

theorem words_sep {t : List α} {c : α} (hc : sep c = true) : words sep (c :: t) = words sep t := by
  have h := List.splitOnP_append_cons_of_forall_mem (List.forall_mem_nil _) c hc t
  rw [List.nil_append] at h
  simp [words, h]

/-- A word at the beginning is the first one. -/
theorem words_head {w t : List α} (hw : w ≠ []) (hsep : ∀ a ∈ w, sep a = false)
    (ht : t.head?.all sep = true) : ∃ rest, words sep (w ++ t) = w :: rest := by
  cases t with
  | nil =>
    have hsplit : w.splitOnP sep = [w] := List.splitOnP_eq_singleton hsep
    exact ⟨[], by simp [words, hsplit, hw]⟩
  | cons c t => exact ⟨words sep t, words_cons hw hsep (by simpa using ht)⟩

theorem words_nil : words sep ([] : List α) = [] := by
  simp [words]

end Words

end Lib.Scan
