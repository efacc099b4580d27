import Mathlib.Data.List.AList

/-!
# Finite maps with the reading and writing rules of a Go map

A Go `map` is a finite partial function. `AList` carries the proof that no key
occurs twice, so a map cannot hold two entries for one key. A read of an absent
key answers `none`, deleting an absent key changes nothing, and an iteration
meets the entries in an order the program cannot rely on: `picks` lists the
entries at which an iteration that stops at its first match may stop.
-/

namespace Lib

def GoMap (κ ν : Type) := AList (fun _ : κ => ν)

namespace GoMap
variable {κ ν : Type}

def empty : GoMap κ ν := (∅ : AList fun _ : κ => ν)

/-- The entries, in an order that carries no meaning. -/
def toList (m : GoMap κ ν) : List (κ × ν) := (AList.entries m).map fun e => (e.1, e.2)

variable [DecidableEq κ]

def get (m : GoMap κ ν) (k : κ) : Option ν := AList.lookup k m

def set (m : GoMap κ ν) (k : κ) (v : ν) : GoMap κ ν := AList.insert k v m

def del (m : GoMap κ ν) (k : κ) : GoMap κ ν := AList.erase k m

/-- Key presence, the second result of a Go map read. -/
def has (m : GoMap κ ν) (k : κ) : Bool := (m.get k).isSome

@[simp] theorem get_empty (k : κ) : (empty : GoMap κ ν).get k = none :=
  AList.lookup_empty k

theorem get_set (m : GoMap κ ν) (a b : κ) (v : ν) :
    (m.set a v).get b = if b = a then some v else m.get b := by
  by_cases h : b = a
  · subst h
    rw [if_pos rfl]
    exact AList.lookup_insert m
  · rw [if_neg h]
    exact AList.lookup_insert_ne h

theorem get_del (m : GoMap κ ν) (a b : κ) :
    (m.del a).get b = if b = a then none else m.get b := by
  by_cases h : b = a
  · subst h
    rw [if_pos rfl]
    exact AList.lookup_erase b m
  · rw [if_neg h]
    exact AList.lookup_erase_ne h

@[simp] theorem get_set_self (m : GoMap κ ν) (k : κ) (v : ν) : (m.set k v).get k = some v := by
  rw [get_set, if_pos rfl]

@[simp] theorem get_del_self (m : GoMap κ ν) (k : κ) : (m.del k).get k = none := by
  rw [get_del, if_pos rfl]

theorem get_set_ne (m : GoMap κ ν) {a b : κ} (v : ν) (h : b ≠ a) :
    (m.set a v).get b = m.get b := by
  rw [get_set, if_neg h]

theorem get_del_ne (m : GoMap κ ν) {a b : κ} (h : b ≠ a) : (m.del a).get b = m.get b := by
  rw [get_del, if_neg h]

@[simp] theorem has_empty (k : κ) : (empty : GoMap κ ν).has k = false := by
  simp [has]

theorem has_set (m : GoMap κ ν) (a b : κ) (v : ν) :
    (m.set a v).has b = (decide (b = a) || m.has b) := by
  simp only [has, get_set]
  by_cases h : b = a <;> simp [h]

theorem has_del (m : GoMap κ ν) (a b : κ) :
    (m.del a).has b = (!decide (b = a) && m.has b) := by
  simp only [has, get_del]
  by_cases h : b = a <;> simp [h]

theorem has_iff (m : GoMap κ ν) (k : κ) : m.has k = true ↔ ∃ v, m.get k = some v := by
  simp only [has, Option.isSome_iff_exists]

theorem not_has_iff (m : GoMap κ ν) (k : κ) : m.has k = false ↔ m.get k = none := by
  simp only [has, Option.isSome_eq_false_iff, Option.isNone_iff_eq_none]

/- What is found in a map that was filled from a list was put there for an element. -/
theorem mem_of_get_fold {α : Type} (key : α → κ) (val : α → ν) (l : List α) (k : κ) (v : ν)
    (h : (l.foldl (fun m a => m.set (key a) (val a)) empty).get k = some v) :
    ∃ a ∈ l, key a = k ∧ val a = v := by
  have hfold : ∀ (l : List α) (m : GoMap κ ν),
      (l.foldl (fun m a => m.set (key a) (val a)) m).get k = some v →
      (∃ a ∈ l, key a = k ∧ val a = v) ∨ m.get k = some v := by
    intro l
    induction l with
    | nil => exact fun m h => Or.inr h
    | cons a l ih =>
      intro m h
      rcases ih _ h with ⟨b, hb, hkb⟩ | hold
      · exact Or.inl ⟨b, List.mem_cons_of_mem _ hb, hkb⟩
      · rw [get_set] at hold
        split at hold
        next hk =>
          cases hold
          exact Or.inl ⟨a, List.mem_cons_self, hk.symm, rfl⟩
        next => exact Or.inr hold
  rcases hfold l empty h with hm | hempty
  · exact hm
  · rw [get_empty] at hempty
    cases hempty

theorem mem_of_get_index (key : ν → κ) (l : List ν) (k : κ) (v : ν)
    (h : (l.foldl (fun m v => m.set (key v) v) empty).get k = some v) : v ∈ l ∧ key v = k := by
  obtain ⟨a, ha, hk, rfl⟩ := mem_of_get_fold key (fun v => v) l k v h
  exact ⟨ha, hk⟩

/- The map from the keys of the elements of a list to the elements. -/
theorem get_index (key : ν → κ) (l : List ν) (hinj : ∀ v ∈ l, ∀ w ∈ l, key v = key w → v = w) (k : κ)
    (v : ν) : (l.foldl (fun m v => m.set (key v) v) empty).get k = some v ↔ v ∈ l ∧ key v = k := by
  have hfold : ∀ (l : List ν) (m : GoMap κ ν), (∀ v ∈ l, ∀ w ∈ l, key v = key w → v = w) →
      ((l.foldl (fun m v => m.set (key v) v) m).get k = some v ↔
        (v ∈ l ∧ key v = k) ∨ ((∀ w ∈ l, key w ≠ k) ∧ m.get k = some v)) := by
    intro l
    induction l with
    | nil => simp
    | cons a l ih =>
      intro m hinj
      rw [List.foldl_cons, ih _ fun v hv w hw => hinj v (List.mem_cons_of_mem _ hv) w
        (List.mem_cons_of_mem _ hw), get_set]
      by_cases ha : key a = k
      · have hall : ∀ w ∈ l, key w = k → w = a := fun w hw hk =>
          hinj w (List.mem_cons_of_mem _ hw) a List.mem_cons_self (hk.trans ha.symm)
        grind
      · grind
  rw [hfold l empty hinj]
  simp

/-- The entries at which an iteration that stops at its first match can stop. -/
def picks (m : GoMap κ ν) (p : κ → ν → Bool) : List (κ × ν) :=
  m.toList.filter fun e => p e.1 e.2

theorem mem_toList (m : GoMap κ ν) (k : κ) (v : ν) : (k, v) ∈ m.toList ↔ m.get k = some v := by
  have hmem : m.get k = some v ↔ (⟨k, v⟩ : Σ _ : κ, ν) ∈ AList.entries m :=
    AList.mem_lookup_iff
  simp only [toList, List.mem_map, Prod.mk.injEq]
  constructor
  · rintro ⟨⟨k', v'⟩, hm, rfl, rfl⟩
    exact hmem.mpr hm
  · intro hm
    exact ⟨⟨k, v⟩, hmem.mp hm, rfl, rfl⟩

theorem mem_picks (m : GoMap κ ν) (p : κ → ν → Bool) (k : κ) (v : ν) :
    (k, v) ∈ m.picks p ↔ m.get k = some v ∧ p k v = true := by
  rw [picks, List.mem_filter, mem_toList]

end GoMap
end Lib
