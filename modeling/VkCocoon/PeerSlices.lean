import VkCocoon.Lib.Span

/-!
# The plan of a peer transfer

The serving node cuts the data runs of a snapshot file into slices
(`coalesceExtents`, `splitExtents`); the waking node checks them against the file
size it was told and hands them to its streams in groups (`fetchFiles`). Offsets
and lengths are the `int64` of the source.
-/

namespace VkCocoon.Peer
open Lib

structure Extent where
  offset : Int64
  length : Int64
deriving DecidableEq, Repr

structure PeerSlice where
  offset : Int64
  length : Int64
deriving DecidableEq, Repr

/-- One pass of the loop: `out[n-1]` takes in an extent whose hole is at most `maxGap`. -/
def coalesceStep (maxGap : Int64) (out : List Extent) (e : Extent) : List Extent :=
  match out.getLast? with
  | none => out ++ [e]
  | some last =>
    if e.offset - (last.offset + last.length) ≤ maxGap then
      out.dropLast ++ [{ last with length := e.offset + e.length - last.offset }]
    else out ++ [e]

def coalesceExtents (extents : List Extent) (maxGap : Int64) : List Extent :=
  extents.foldl (coalesceStep maxGap) []

/-- The inner loop from `off` on; `none` when the fuel is out while the loop still runs. -/
def splitExtent (e : Extent) (limit : Int64) : ℕ → Int64 → Option (List PeerSlice)
  | 0, _ => none
  | fuel + 1, off =>
    if off < e.offset + e.length then
      (splitExtent e limit fuel (off + limit)).map
        (⟨off, min limit (e.offset + e.length - off)⟩ :: ·)
    else some []

def splitExtents (fuel : ℕ) : List Extent → Int64 → Option (List PeerSlice)
  | [], _ => some []
  | e :: extents, limit =>
    (splitExtent e limit fuel e.offset).bind fun slices =>
      (splitExtents fuel extents limit).map (slices ++ ·)

/-! ### The waking side -/

/-- The part of `peerFile` the transfer reads. -/
structure PeerFile where
  size : Int64
  slices : List PeerSlice
deriving DecidableEq, Repr

def PeerSlice.outOfBounds (sl : PeerSlice) (size : Int64) : Bool :=
  decide (sl.offset < 0) || decide (sl.length ≤ 0) || decide (size < sl.offset + sl.length)

def streamsPerFile : ℕ := 8

/-- `slices.Chunk(l, n)`; every group takes at least one element, so `l.length` is fuel enough. -/
def chunk {α : Type} (n : ℕ) : ℕ → List α → List (List α)
  | _, [] => []
  | 0, _ => []
  | fuel + 1, l => l.take n :: chunk n fuel (l.drop n)

/-- The tasks `fetchFiles` makes of one file of the plan; `none` when the plan is refused. -/
def fetchTasks (pf : PeerFile) : Option (List (List PeerSlice)) :=
  if pf.slices.any (·.outOfBounds pf.size) then none
  else
    let perStream := max 1 ((pf.slices.length + streamsPerFile - 1) / streamsPerFile)
    some (chunk perStream pf.slices.length pf.slices)

/-! ### `int64` arithmetic that does not leave the range -/

theorem toInt_add_of_fits {a b : Int64} (h : -2 ^ 63 ≤ a.toInt + b.toInt)
    (h' : a.toInt + b.toInt < 2 ^ 63) : (a + b).toInt = a.toInt + b.toInt := by
  rw [Int64.toInt_add]
  exact Int.bmod_eq_of_le (by omega) (by omega)

theorem toInt_sub_of_fits {a b : Int64} (h : -2 ^ 63 ≤ a.toInt - b.toInt)
    (h' : a.toInt - b.toInt < 2 ^ 63) : (a - b).toInt = a.toInt - b.toInt := by
  rw [Int64.toInt_sub]
  exact Int.bmod_eq_of_le (by omega) (by omega)

theorem toInt_ofNat_of_fits {n : ℕ} (h : (n : ℤ) < 2 ^ 63) : (Int64.ofNat n).toInt = n := by
  have hsize : (Int64.size : ℤ) = 2 ^ 64 := rfl
  rw [Int64.toInt_ofNat']
  exact Int.bmod_eq_of_le (by omega) (by omega)

theorem toInt_min (a b : Int64) : (min a b).toInt = min a.toInt b.toInt := by
  have hmin : min a b = if a ≤ b then a else b := rfl
  rw [hmin]
  simp only [Int64.le_iff_toInt_le]
  split <;> omega

/-! ### Coalescing -/

def Extent.span (e : Extent) : Span := ⟨e.offset.toInt, e.offset.toInt + e.length.toInt⟩
def PeerSlice.span (sl : PeerSlice) : Span := ⟨sl.offset.toInt, sl.offset.toInt + sl.length.toInt⟩

theorem coalesceStep_snoc (maxGap : Int64) (out : List Extent) (last e : Extent) :
    coalesceStep maxGap (out ++ [last]) e =
      if e.offset - (last.offset + last.length) ≤ maxGap then
        out ++ [{ last with length := e.offset + e.length - last.offset }]
      else out ++ [last] ++ [e] := by
  simp only [coalesceStep, List.getLast?_concat, List.dropLast_concat]

/- The extent that takes in its follower reaches from its own start to the follower's end. -/
theorem merged_span {last e : Extent} {size : ℤ} (hsize : size < 2 ^ 63) (h0 : 0 ≤ last.span.start)
    (hl : last.span.start < last.span.stop) (hle : last.span.stop ≤ e.span.start)
    (he : e.span.start < e.span.stop) (hstop : e.span.stop ≤ size) :
    ({ last with length := e.offset + e.length - last.offset } : Extent).span =
      ⟨last.span.start, e.span.stop⟩ := by
  simp only [Extent.span] at *
  have hsum : (e.offset + e.length).toInt = e.offset.toInt + e.length.toInt :=
    toInt_add_of_fits (by omega) (by omega)
  have hdiff : (e.offset + e.length - last.offset).toInt =
      e.offset.toInt + e.length.toInt - last.offset.toInt := by
    rw [toInt_sub_of_fits (by omega) (by omega), hsum]
  rw [hdiff]
  congr 1
  omega

/- One step keeps the runs in order, up to the end of the extent it takes, and covers it. -/
theorem coalesceStep_runs (maxGap : Int64) {out : List Extent} {e : Extent} {mid size : ℤ}
    (hsize : size < 2 ^ 63) (hout : Span.Runs 0 mid (out.map Extent.span)) (h0 : 0 ≤ mid)
    (hmid : mid ≤ e.span.start) (he : e.span.start < e.span.stop) (hstop : e.span.stop ≤ size) :
    Span.Runs 0 e.span.stop ((coalesceStep maxGap out e).map Extent.span) ∧
    ∀ i, Span.Covers (out.map Extent.span) i ∨ e.span.Has i →
      Span.Covers ((coalesceStep maxGap out e).map Extent.span) i := by
  have happend : Span.Runs 0 e.span.stop ((out ++ [e]).map Extent.span) ∧
      ∀ i, Span.Covers (out.map Extent.span) i ∨ e.span.Has i →
        Span.Covers ((out ++ [e]).map Extent.span) i := by
    rw [List.map_append, List.map_singleton]
    refine ⟨hout.append (Span.runs_singleton hmid he le_rfl) h0 (by omega), fun i hi => ?_⟩
    rw [Span.covers_append, Span.covers_cons]
    exact hi.imp_right Or.inl
  rcases List.eq_nil_or_concat out with rfl | ⟨init, last, rfl⟩
  · exact happend
  · rw [List.concat_eq_append] at *
    rw [coalesceStep_snoc]
    split
    · rw [List.map_append, List.map_singleton] at hout ⊢
      obtain ⟨hl0, hl, hlmid, hinit⟩ := hout.unsnoc
      rw [merged_span hsize hl0 hl (by omega) he hstop]
      refine ⟨hinit.append (Span.runs_singleton le_rfl (by simp only; omega) le_rfl) hl0 (by omega), ?_⟩
      intro i hin
      simp only [List.map_append, List.map_cons, List.map_nil, Span.covers_append, Span.covers_cons,
        Span.Has] at hin ⊢
      rcases hin with (hin | hin | hin) | hin
      · exact Or.inl hin
      · exact Or.inr (Or.inl ⟨hin.1, by omega⟩)
      · exact Or.inr (Or.inr hin)
      · exact Or.inr (Or.inl ⟨by omega, hin.2⟩)
    · exact happend

theorem coalesceExtents_runs (maxGap : Int64) {extents : List Extent} {size : ℤ} (hsize : size < 2 ^ 63)
    (h : Span.Runs 0 size (extents.map Extent.span)) :
    Span.Runs 0 size ((coalesceExtents extents maxGap).map Extent.span) ∧
    ∀ i, Span.Covers (extents.map Extent.span) i →
      Span.Covers ((coalesceExtents extents maxGap).map Extent.span) i := by
  -- over the loop: what is in `out` ends at `mid`, where the extents still to come start
  have hloop : ∀ (extents out : List Extent) (mid : ℤ), 0 ≤ mid → mid ≤ size →
      Span.Runs 0 mid (out.map Extent.span) → Span.Runs mid size (extents.map Extent.span) →
      Span.Runs 0 size ((extents.foldl (coalesceStep maxGap) out).map Extent.span) ∧
      ∀ i, Span.Covers (out.map Extent.span) i ∨ Span.Covers (extents.map Extent.span) i →
        Span.Covers ((extents.foldl (coalesceStep maxGap) out).map Extent.span) i := by
    intro extents
    induction extents with
    | nil =>
      intro out mid h0 hmid hout _
      refine ⟨⟨hout.ordered, fun s hs => ?_⟩, fun i hi => ?_⟩
      · obtain ⟨h1, h2, h3⟩ := hout.inside s hs
        exact ⟨h1, h2, by omega⟩
      · rcases hi with hi | ⟨s, hs, -⟩
        · exact hi
        · cases hs
    | cons e extents ih =>
      intro out mid h0 hmid hout hrest
      obtain ⟨h1, h2, h3, hrest'⟩ := Span.Runs.uncons hrest
      obtain ⟨hstep, hcov⟩ := coalesceStep_runs maxGap hsize hout h0 h1 h2 h3
      obtain ⟨hruns, hall⟩ := ih _ e.span.stop (by omega) h3 hstep hrest'
      refine ⟨hruns, fun i hi => hall i ?_⟩
      rw [List.map_cons, Span.covers_cons, ← or_assoc] at hi
      exact hi.imp_left (hcov i)
  by_cases h0 : 0 ≤ size
  · obtain ⟨hruns, hcov⟩ := hloop extents [] 0 le_rfl h0 Span.runs_nil h
    exact ⟨hruns, fun i hi => hcov i (Or.inr hi)⟩
  · cases extents with
    | nil => exact ⟨Span.runs_nil, fun i hi => hi⟩
    | cons e extents =>
      obtain ⟨h1, h2, h3, -⟩ := Span.Runs.uncons h
      omega

/-! ### Splitting -/

theorem splitExtent_runs {e : Extent} {limit : Int64} (hlimit : 0 < limit.toInt)
    (h0 : 0 ≤ e.offset.toInt) (hlen : 0 < e.length.toInt)
    (hfit : e.span.stop + limit.toInt < 2 ^ 63) (fuel : ℕ) (off : Int64)
    (hoff : e.offset.toInt ≤ off.toInt) (hfuel : (e.span.stop - off.toInt).toNat < fuel) :
    ∃ slices, splitExtent e limit fuel off = some slices ∧
      (∀ hi, off.toInt ≤ hi → e.span.stop ≤ hi →
        Span.Runs off.toInt hi (slices.map PeerSlice.span)) ∧
      (∀ i, off.toInt ≤ i → i < e.span.stop → Span.Covers (slices.map PeerSlice.span) i) ∧
      ∀ sl ∈ slices, sl.length.toInt ≤ limit.toInt := by
  have hstop : (e.offset + e.length).toInt = e.span.stop := by
    simp only [Extent.span] at hfit ⊢
    exact toInt_add_of_fits (by omega) (by omega)
  -- the distance to the end of the extent is what the fuel has to reach
  induction fuel generalizing off with
  | zero => omega
  | succ fuel ih =>
    simp only [splitExtent, Int64.lt_iff_toInt_lt, hstop]
    by_cases hlt : off.toInt < e.span.stop
    · have hnext : (off + limit).toInt = off.toInt + limit.toInt :=
        toInt_add_of_fits (by omega) (by omega)
      have hleft : (e.offset + e.length - off).toInt = e.span.stop - off.toInt := by
        rw [toInt_sub_of_fits (by omega) (by omega), hstop]
      obtain ⟨rest, hrest, hruns, hcov, hlen⟩ := ih (off + limit) (by omega) (by omega)
      have hcut : (min limit (e.offset + e.length - off)).toInt =
          min limit.toInt (e.span.stop - off.toInt) := by rw [toInt_min, hleft]
      refine ⟨_, by rw [if_pos hlt, hrest, Option.map_some], ?_, ?_, ?_⟩
      · intro hi _ hhi
        have hfirst : Span.Runs off.toInt (min (off.toInt + limit.toInt) e.span.stop)
            [PeerSlice.span ⟨off, min limit (e.offset + e.length - off)⟩] := by
          apply Span.runs_singleton <;> simp only [PeerSlice.span, hcut] <;> omega
        rw [List.map_cons]
        by_cases hend : off.toInt + limit.toInt ≤ e.span.stop
        · rw [min_eq_left hend, ← hnext] at hfirst
          exact hfirst.append (hruns hi (by omega) hhi) (by omega) (by omega)
        · -- the slice reaches the end, so nothing was cut behind it
          have hnil : rest.map PeerSlice.span = [] :=
            (hruns (off + limit).toInt le_rfl (by omega)).eq_nil le_rfl
          rw [min_eq_right (by omega)] at hfirst
          rw [hnil]
          exact hfirst.append Span.runs_nil (by omega) hhi
      · intro i hi hi'
        simp only [List.map_cons, Span.covers_cons, Span.Has, PeerSlice.span, hcut]
        by_cases hin : i < off.toInt + limit.toInt
        · exact Or.inl ⟨hi, by omega⟩
        · exact Or.inr (hcov i (by omega) hi')
      · intro sl hsl
        rcases List.mem_cons.mp hsl with rfl | hsl
        · simp only [hcut]
          omega
        · exact hlen sl hsl
    · refine ⟨[], by rw [if_neg hlt], fun hi _ _ => Span.runs_nil, ?_, fun sl hsl => by cases hsl⟩
      intro i hi hi'
      omega

theorem splitExtents_runs {limit : Int64} (hlimit : 0 < limit.toInt) {lo size : ℤ} {fuel : ℕ}
    (hfit : size + limit.toInt < 2 ^ 63) (hfuel : size < fuel) (hlo : 0 ≤ lo) {extents : List Extent}
    (h : Span.Runs lo size (extents.map Extent.span)) :
    ∃ slices, splitExtents fuel extents limit = some slices ∧
      Span.Runs lo size (slices.map PeerSlice.span) ∧
      (∀ i, Span.Covers (extents.map Extent.span) i → Span.Covers (slices.map PeerSlice.span) i) ∧
      ∀ sl ∈ slices, sl.length.toInt ≤ limit.toInt := by
  induction extents generalizing lo with
  | nil =>
    refine ⟨[], rfl, Span.runs_nil, fun i hi => hi, fun sl hsl => by cases hsl⟩
  | cons e extents ih =>
    obtain ⟨h1, h2, h3, htail⟩ := Span.Runs.uncons h
    have hstart : e.span.start = e.offset.toInt := rfl
    have hspan : e.span.stop = e.offset.toInt + e.length.toInt := rfl
    obtain ⟨head, hhead, hruns, hcov, hlen⟩ := splitExtent_runs hlimit (e := e) (by omega) (by omega)
      (by omega) fuel e.offset le_rfl (by omega)
    obtain ⟨rest, hrest, hruns', hcov', hlen'⟩ := ih (show 0 ≤ e.span.stop by omega) htail
    refine ⟨head ++ rest, ?_, ?_, ?_, ?_⟩
    · simp only [splitExtents, hhead, Option.bind_some, hrest, Option.map_some]
    · have hhead' : Span.Runs lo e.span.stop (head.map PeerSlice.span) := by
        have hmine := hruns e.span.stop (by omega) le_rfl
        refine ⟨hmine.ordered, fun s hs => ?_⟩
        obtain ⟨ha, hb, hc⟩ := hmine.inside s hs
        exact ⟨by omega, hb, hc⟩
      rw [List.map_append]
      exact hhead'.append hruns' (by omega) h3
    · intro i hi
      rw [List.map_cons, Span.covers_cons] at hi
      rw [List.map_append, Span.covers_append]
      rcases hi with hi | hi
      · exact Or.inl (hcov i hi.1 hi.2)
      · exact Or.inr (hcov' i hi)
    · intro sl hsl
      rcases List.mem_append.mp hsl with hsl | hsl
      · exact hlen sl hsl
      · exact hlen' sl hsl

/-! ### Validation and grouping -/

theorem chunk_flatten {α : Type} {n : ℕ} (hn : 0 < n) (fuel : ℕ) (l : List α)
    (hfuel : l.length ≤ fuel) : (chunk n fuel l).flatten = l := by
  induction fuel generalizing l with
  | zero =>
    have hnil : l = [] := List.length_eq_zero_iff.mp (by omega)
    subst hnil
    rfl
  | succ fuel ih =>
    cases l with
    | nil => rfl
    | cons x xs =>
      have hdrop : ((x :: xs).drop n).length ≤ fuel := by
        rw [List.length_drop]
        simp only [List.length_cons] at hfuel ⊢
        omega
      rw [chunk, List.flatten_cons, ih _ hdrop]
      · exact List.take_append_drop n (x :: xs)
      · exact fun h => by cases h

theorem not_outOfBounds {sl : PeerSlice} {size : Int64} (h0 : 0 ≤ sl.span.start)
    (hlen : sl.span.start < sl.span.stop) (hstop : sl.span.stop ≤ size.toInt) :
    sl.outOfBounds size = false := by
  simp only [PeerSlice.span] at h0 hlen hstop
  have hsize := size.toInt_lt
  have hsum : (sl.offset + sl.length).toInt = sl.offset.toInt + sl.length.toInt :=
    toInt_add_of_fits (by omega) (by omega)
  have hzero : (0 : Int64).toInt = 0 := rfl
  simp only [PeerSlice.outOfBounds, Int64.lt_iff_toInt_lt, Int64.le_iff_toInt_le, hzero, hsum,
    Bool.or_eq_false_iff, decide_eq_false_iff_not]
  omega

/- A plan whose slices lie inside the file is accepted, and every slice is in one task. -/
theorem fetchTasks_of_runs {size : Int64} {slices : List PeerSlice}
    (h : Span.Runs 0 size.toInt (slices.map PeerSlice.span)) :
    ∃ groups, fetchTasks ⟨size, slices⟩ = some groups ∧ groups.flatten = slices := by
  have hok : slices.any (·.outOfBounds size) = false := by
    rw [List.any_eq_false]
    intro sl hsl
    obtain ⟨h1, h2, h3⟩ := h.inside sl.span (List.mem_map_of_mem hsl)
    simp only [not_outOfBounds h1 h2 h3, Bool.false_eq_true, not_false_eq_true]
  refine ⟨_, by simp only [fetchTasks, hok, Bool.false_eq_true, if_false]; rfl, ?_⟩
  exact chunk_flatten (by omega) _ _ le_rfl

end VkCocoon.Peer
