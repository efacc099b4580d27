import Mathlib.Data.List.Basic
import Mathlib.Data.List.DropRight

/-!
# Slash paths

`base`, `clean` and `join` as Go's `path/filepath` has them on Unix, over any alphabet
with a separator and a dot. `clean` reads the path from left to right into a buffer;
what it does to a path that ends in a separator and a name is what it does to the
front of the path, and then to the name.
-/

namespace Lib

structure Alphabet (α : Type) where
  slash : α
  dot : α
  ne : slash ≠ dot

namespace Path
variable {α : Type} [DecidableEq α] (A : Alphabet α)

/-- The last element of a path: trailing separators go, then all up to the last one. -/
def base (path : List α) : List α :=
  if path = [] then [A.dot]
  else
    let last := (path.rdropWhile (· = A.slash)).rtakeWhile (· ≠ A.slash)
    if last = [] then [A.slash] else last

/-- What `clean` has written, and the place behind which `..` may not take it back. -/
structure Buffer (α : Type) where
  out : List α
  dotdot : ℕ

/-- The end of the buffer falls to a separator, but not below `dotdot`. -/
def backtrack (b : Buffer α) : ℕ → ℕ
  | 0 => 0
  | w + 1 => if b.dotdot < w + 1 ∧ b.out[w + 1]? ≠ some A.slash then backtrack b w else w + 1

/-- A `..` element. -/
def Buffer.parent (rooted : Bool) (b : Buffer α) : Buffer α :=
  if b.dotdot < b.out.length then
    { b with out := b.out.take (backtrack A b (b.out.length - 1)) }
  else if rooted then b
  else
    let out := (if 0 < b.out.length then b.out ++ [A.slash] else b.out) ++ [A.dot, A.dot]
    ⟨out, out.length⟩

/-- A real path element. -/
def Buffer.element (rooted : Bool) (b : Buffer α) (elem : List α) : Buffer α :=
  if (rooted && b.out.length != 1) || (!rooted && b.out.length != 0) then
    { b with out := b.out ++ [A.slash] ++ elem }
  else { b with out := b.out ++ elem }

/-- `r == n || os.IsPathSeparator(path[r])` -/
def elementEnds : List α → Bool
  | [] => true
  | c :: _ => c = A.slash

/-- The loop of `clean`. Every pass reads something, so the length of the path is fuel enough. -/
def cleanLoop (rooted : Bool) : ℕ → List α → Buffer α → Buffer α
  | 0, _, b => b
  | _ + 1, [], b => b
  | fuel + 1, c :: path, b =>
    if c = A.slash then cleanLoop rooted fuel path b
    else if c = A.dot ∧ elementEnds A path then cleanLoop rooted fuel path b
    else if c = A.dot ∧ path.head? = some A.dot ∧ elementEnds A path.tail then
      cleanLoop rooted fuel path.tail (b.parent A rooted)
    else
      cleanLoop rooted fuel ((c :: path).dropWhile (· ≠ A.slash))
        (b.element A rooted ((c :: path).takeWhile (· ≠ A.slash)))

def Buffer.string (b : Buffer α) : List α := if b.out = [] then [A.dot] else b.out

def clean : List α → List α
  | [] => [A.dot]
  | c :: path =>
    if c = A.slash then (cleanLoop A true path.length path ⟨[A.slash], 1⟩).string A
    else (cleanLoop A false (path.length + 1) (c :: path) ⟨[], 0⟩).string A

/-- Empty elements at the front are left out. -/
def join (elem : List (List α)) : List α :=
  match elem.dropWhile (· = []) with
  | [] => []
  | elem => clean A ([A.slash].intercalate elem)

/-! ### Names and directories -/

/-- A path element that is neither `.` nor `..`. -/
structure IsName (s : List α) : Prop where
  ne_nil : s ≠ []
  noSlash : A.slash ∉ s
  ne_dot : s ≠ [A.dot]
  ne_dotdot : s ≠ [A.dot, A.dot]

/-- A clean absolute path. -/
structure IsDir (dir : List α) : Prop where
  absolute : dir.head? = some A.slash
  clean : clean A dir = dir

/-- The path of an entry of a directory. -/
def entry (dir name : List α) : List α :=
  if dir = [A.slash] then dir ++ name else dir ++ [A.slash] ++ name

/-- `path` is one level below `dir`. -/
def Child (dir path : List α) : Prop := ∃ name, IsName A name ∧ path = entry A dir name

variable {A} {dir s p q path : List α} {rooted : Bool} {b : Buffer α}

theorem base_name (h : IsName A s) : base A s = s := by
  have htake : s.rtakeWhile (· ≠ A.slash) = s := by
    rw [List.rtakeWhile_eq_self_iff]
    intro x hx
    have hne : x ≠ A.slash := fun he => h.noSlash (he ▸ hx)
    simpa using hne
  have hdrop : s.rdropWhile (· = A.slash) = s := by
    rw [List.rdropWhile_eq_self_iff]
    intro hne hlast
    have hs : s.getLast hne = A.slash := by simpa using hlast
    exact h.noSlash (hs ▸ List.getLast_mem hne)
  simp only [base, if_neg h.ne_nil, hdrop, htake]

/- What `base` leaves as it is has no separator, unless it is one. -/
theorem noSlash_of_base (h : base A s = s) (hs : s ≠ [A.slash]) : A.slash ∉ s := by
  by_cases hnil : s = []
  · rw [hnil]
    exact List.not_mem_nil
  · simp only [base, if_neg hnil] at h
    split at h
    · exact absurd h.symm hs
    · intro hmem
      rw [← h] at hmem
      have hp := List.mem_rtakeWhile_imp hmem
      simp at hp

theorem length_entry (dir name : List α) : dir.length + name.length ≤ (entry A dir name).length := by
  unfold entry
  split <;> simp only [List.length_append, List.length_singleton] <;> omega

theorem not_child_self : ¬ Child A dir dir := by
  rintro ⟨name, hname, heq⟩
  have hlen := length_entry (A := A) dir name
  have hpos : 0 < name.length := List.length_pos_iff.mpr hname.ne_nil
  rw [← heq] at hlen
  omega

/-! ### The loop of `clean` -/

theorem cleanLoop_nil (rooted : Bool) (fuel : ℕ) (b : Buffer α) : cleanLoop A rooted fuel [] b = b := by
  cases fuel <;> rfl

theorem length_dropWhile_slash (path : List α) {c : α} (h : c ≠ A.slash) :
    ((c :: path).dropWhile (· ≠ A.slash)).length ≤ path.length := by
  rw [List.dropWhile_cons_of_pos (by simpa using h)]
  exact List.length_dropWhile_le _ _

theorem cleanLoop_fuel (fuel fuel' : ℕ) (hf : path.length ≤ fuel) (hf' : path.length ≤ fuel') :
    cleanLoop A rooted fuel path b = cleanLoop A rooted fuel' path b := by
  induction fuel generalizing fuel' path b with
  | zero =>
    have hnil : path = [] := List.length_eq_zero_iff.mp (by omega)
    rw [hnil, cleanLoop_nil, cleanLoop_nil]
  | succ fuel ih =>
    cases path with
    | nil => rw [cleanLoop_nil, cleanLoop_nil]
    | cons c path =>
      rw [List.length_cons] at hf hf'
      obtain ⟨fuel', rfl⟩ : ∃ n, fuel' = n + 1 := ⟨fuel' - 1, by omega⟩
      simp only [cleanLoop]
      split
      · exact ih _ (by omega) (by omega)
      · rename_i hc
        have htail : path.tail.length ≤ path.length := by
          rw [List.length_tail]
          omega
        have hdrop := length_dropWhile_slash path hc
        split
        · exact ih _ (by omega) (by omega)
        · split
          · exact ih _ (by omega) (by omega)
          · exact ih _ (by omega) (by omega)

theorem elementEnds_append (p q : List α) :
    elementEnds A (p ++ A.slash :: q) = elementEnds A p := by
  cases p with
  | nil => simp [elementEnds]
  | cons c p => rfl

theorem takeWhile_append_slash (p q : List α) :
    (p ++ A.slash :: q).takeWhile (· ≠ A.slash) = p.takeWhile (· ≠ A.slash) := by
  induction p with
  | nil => simp
  | cons c p ih =>
    rw [List.cons_append, List.takeWhile_cons, List.takeWhile_cons, ih]

theorem dropWhile_append_slash (p q : List α) :
    (p ++ A.slash :: q).dropWhile (· ≠ A.slash) = p.dropWhile (· ≠ A.slash) ++ A.slash :: q := by
  induction p with
  | nil => simp
  | cons c p ih =>
    rw [List.cons_append, List.dropWhile_cons, List.dropWhile_cons, ih]
    split <;> rfl

/- The front of a path up to a separator is read first. -/
theorem cleanLoop_append (n : ℕ) (p q : List α) (b : Buffer α) (hp : p.length ≤ n) :
    cleanLoop A rooted (p.length + q.length + 1) (p ++ A.slash :: q) b =
      cleanLoop A rooted q.length q (cleanLoop A rooted p.length p b) := by
  induction n generalizing p b with
  | zero =>
    have hnil : p = [] := List.length_eq_zero_iff.mp (by omega)
    subst hnil
    rw [List.nil_append, cleanLoop_nil, cleanLoop, if_pos rfl]
    exact cleanLoop_fuel _ _ (by simp) le_rfl
  | succ n ih =>
    cases p with
    | nil => exact ih [] b (by simp)
    | cons c p =>
      rw [List.length_cons] at hp
      -- the rest of the front is shorter, so the fuel that is left serves it as well
      have hrest : ∀ (r : List α) (b : Buffer α), r.length ≤ p.length →
          cleanLoop A rooted (p.length + q.length + 1) (r ++ A.slash :: q) b =
            cleanLoop A rooted q.length q (cleanLoop A rooted p.length r b) := by
        intro r b hr
        have hlen : (r ++ A.slash :: q).length = r.length + q.length + 1 := by
          rw [List.length_append, List.length_cons]
          omega
        rw [cleanLoop_fuel _ (r.length + q.length + 1) (by omega) (by omega), ih r b (by omega),
          cleanLoop_fuel r.length p.length le_rfl hr]
      have hfuel : (c :: p).length + q.length + 1 = (p.length + q.length + 1) + 1 := by
        rw [List.length_cons]
        omega
      rw [hfuel, List.cons_append, List.length_cons]
      simp only [cleanLoop]
      rw [elementEnds_append]
      split
      · exact hrest p b le_rfl
      · rename_i hc
        split
        · exact hrest p b le_rfl
        · rename_i hdot
          have hcons : c :: (p ++ A.slash :: q) = (c :: p) ++ A.slash :: q := rfl
          rw [hcons, takeWhile_append_slash, dropWhile_append_slash]
          cases p with
          | nil =>
            have hcd : c ≠ A.dot := fun h => hdot ⟨h, rfl⟩
            rw [if_neg (fun h => hcd h.1), if_neg (fun h => hcd h.1)]
            exact hrest _ _ (length_dropWhile_slash [] hc)
          | cons d p =>
            have hends : elementEnds A ((d :: p) ++ A.slash :: q).tail = elementEnds A (d :: p).tail :=
              elementEnds_append p q
            have hhead : ((d :: p) ++ A.slash :: q).head? = (d :: p).head? := rfl
            rw [hends, hhead]
            split
            · exact hrest p _ (by simp)
            · exact hrest _ _ (length_dropWhile_slash _ hc)

/- A name is copied as it is. -/
theorem cleanLoop_name (h : IsName A s) (rooted : Bool) (b : Buffer α) :
    cleanLoop A rooted s.length s b = b.element A rooted s := by
  cases s with
  | nil => exact absurd rfl h.ne_nil
  | cons c path =>
    have hall : ∀ x ∈ c :: path, (decide (x ≠ A.slash)) = true := by
      intro x hx
      have hne : x ≠ A.slash := fun he => h.noSlash (he ▸ hx)
      simpa using hne
    have hc : c ≠ A.slash := by simpa using hall c List.mem_cons_self
    have hends : ∀ r : List α, elementEnds A r = true → (∀ x ∈ r, x ∈ c :: path) → r = [] := by
      intro r hr hsub
      cases r with
      | nil => rfl
      | cons d r =>
        have hd : d = A.slash := by simpa [elementEnds] using hr
        exact absurd (hd ▸ hsub d List.mem_cons_self) h.noSlash
    have hdot : ¬ (c = A.dot ∧ elementEnds A path = true) := by
      rintro ⟨rfl, hr⟩
      have hnil := hends path hr fun x hx => List.mem_cons_of_mem _ hx
      exact h.ne_dot (by rw [hnil])
    have hdotdot : ¬ (c = A.dot ∧ path.head? = some A.dot ∧ elementEnds A path.tail = true) := by
      rintro ⟨rfl, hhead, hr⟩
      cases path with
      | nil => cases hhead
      | cons d path =>
        have hnil : path = [] :=
          hends path hr fun x hx => List.mem_cons_of_mem _ (List.mem_cons_of_mem _ hx)
        have hd : d = A.dot := by simpa using hhead
        exact h.ne_dotdot (by rw [hnil, hd])
    rw [List.length_cons, cleanLoop, if_neg hc, if_neg hdot, if_neg hdotdot,
      List.takeWhile_eq_self_iff.mpr hall, List.dropWhile_eq_nil_iff.mpr hall, cleanLoop_nil]

/-! ### Joining -/

theorem join_pair (hdir : dir ≠ []) (s : List α) :
    join A [dir, s] = clean A (dir ++ A.slash :: s) := by
  have hdrop : [dir, s].dropWhile (· = []) = [dir, s] := by
    rw [List.dropWhile_cons_of_neg (by simpa using hdir)]
  simp only [join, hdrop]
  simp [List.intercalate]

/- A path that starts at the root: what is written for the directory stands before the rest. -/
theorem clean_below (h : IsDir A dir) (s : List α) :
    ∃ b : Buffer α, b.out = dir ∧
      clean A (dir ++ A.slash :: s) = (cleanLoop A true s.length s b).string A := by
  obtain ⟨habs, hclean⟩ := h
  cases dir with
  | nil => cases habs
  | cons c path =>
    have hc : c = A.slash := by simpa using habs
    subst hc
    simp only [clean, if_true] at hclean
    refine ⟨cleanLoop A true path.length path ⟨[A.slash], 1⟩, ?_, ?_⟩
    · unfold Buffer.string at hclean
      split at hclean
      · exact absurd (List.cons.inj hclean).1.symm A.ne
      · exact hclean
    · rw [List.cons_append, clean, if_pos rfl, List.length_append, List.length_cons, ← Nat.add_assoc,
        cleanLoop_append path.length path s _ le_rfl]

theorem IsDir.ne_nil (h : IsDir A dir) : dir ≠ [] := by
  rintro rfl
  exact absurd h.absolute (by simp)

theorem IsDir.length_eq_one (h : IsDir A dir) : dir.length = 1 ↔ dir = [A.slash] := by
  have habs := h.absolute
  cases dir with
  | nil => cases habs
  | cons c path =>
    have hc : c = A.slash := by simpa using habs
    simp [hc]

omit [DecidableEq α] in
theorem string_of_ne_nil (h : b.out ≠ []) : b.string A = b.out := by
  rw [Buffer.string, if_neg h]

theorem element_string (h : IsDir A dir) (hb : b.out = dir) (hs : IsName A s) :
    (b.element A true s).string A = entry A dir s := by
  have hout : (b.element A true s).out = entry A dir s := by
    unfold Buffer.element entry
    by_cases hroot : dir = [A.slash]
    · rw [if_neg (by simp [hb, hroot]), if_pos hroot, hb]
    · have hlen : b.out.length ≠ 1 := fun he => hroot (h.length_eq_one.mp (hb ▸ he))
      rw [if_pos (by simpa using hlen), if_neg hroot, hb]
  rw [string_of_ne_nil, hout]
  rw [hout]
  intro hnil
  have hlen := length_entry (A := A) dir s
  have hpos : 0 < s.length := List.length_pos_iff.mpr hs.ne_nil
  rw [hnil, List.length_nil] at hlen
  omega

/-- A name is joined one level below its directory. -/
theorem join_name (h : IsDir A dir) (hs : IsName A s) : join A [dir, s] = entry A dir s := by
  obtain ⟨b, hb, hclean⟩ := clean_below h s
  rw [join_pair h.ne_nil, hclean, cleanLoop_name hs]
  exact element_string h hb hs

/-- A separator that is joined to a directory is the directory. -/
theorem join_slash (h : IsDir A dir) : join A [dir, [A.slash]] = dir := by
  obtain ⟨b, hb, hclean⟩ := clean_below h [A.slash]
  have hloop : cleanLoop A true 1 [A.slash] b = b := by simp [cleanLoop]
  rw [join_pair h.ne_nil, hclean, List.length_singleton, hloop, string_of_ne_nil (hb ▸ h.ne_nil), hb]

theorem entry_inj {name name' : List α} : entry A dir name = entry A dir name' ↔ name = name' := by
  unfold entry
  split <;> exact List.append_right_inj _

theorem child_join (h : IsDir A dir) (hs : IsName A s) : Child A dir (join A [dir, s]) :=
  ⟨s, hs, join_name h hs⟩

/-- What lies one level below a clean absolute path is one. -/
theorem join_isDir (h : IsDir A dir) (hs : IsName A s) : IsDir A (join A [dir, s]) := by
  constructor
  · have habs := h.absolute
    rw [join_name h hs]
    cases dir with
    | nil => cases habs
    | cons c path =>
      unfold entry
      split <;> simpa using habs
  · rw [join_name h hs]
    by_cases hroot : dir = [A.slash]
    · have hloop : clean A (A.slash :: s) =
          (Buffer.element A true ⟨[A.slash], 1⟩ s).string A := by
        rw [clean, if_pos rfl, cleanLoop_name hs]
      have hentry : entry A dir s = A.slash :: s := by rw [entry, if_pos hroot, hroot]; rfl
      rw [hentry, hloop, element_string h hroot.symm hs, hentry]
    · have hentry : entry A dir s = dir ++ A.slash :: s := by
        rw [entry, if_neg hroot, List.append_assoc]
        rfl
      rw [hentry, ← join_pair h.ne_nil, join_name h hs, hentry]

end Path
end Lib
