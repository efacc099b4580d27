import VkCocoon.PeerPlan

/-!
# The plan a node serves

`buildPlan` reads the directory of a snapshot, asks the kernel where the data of each
file is (`scanExtents`) and cuts what it is told into slices. The kernel is told by its
answers; a file is `Seekable` when they are right for its content. Then the scan ends
with runs that leave out only zeros, and the plan is one that the waking node accepts.
-/

namespace VkCocoon.Peer
open Lib

def peerSliceBytes : Int64 := (256 : Int64) <<< (20 : Int64)

inductive Errno where
  | enxio
  | einval
  | enotsup
  | other (text : String)
deriving DecidableEq

def Errno.error : Errno → String
  | .enxio => "no such device or address"
  | .einval => "invalid argument"
  | .enotsup => "operation not supported"
  | .other text => text

/-- An open file: `f.Stat()` and the two kinds of `unix.Seek`. -/
structure SourceFile where
  stat : Except String Int64
  seekData : Int64 → Except Errno Int64
  seekHole : Int64 → Except Errno Int64

/-- An entry of `os.ReadDir`, with what `os.Open` makes of it. -/
structure DirEntry where
  name : GoString
  regular : Bool
  file : Except String SourceFile

structure PeerPlan where
  snapshotID : GoString
  files : List NamedFile

/-- The answers of the kernel about a file that nobody changes: it may give up, but what it says is
so. -/
structure Seekable (content : List UInt8) (f : SourceFile) : Prop where
  stat : ∀ size, f.stat = .ok size → size.toInt = content.length
  data : ∀ off start, f.seekData off = .ok start → 0 ≤ off.toInt → off.toInt < content.length →
    off.toInt ≤ start.toInt ∧ start.toInt < content.length ∧
      ∀ (i : ℕ) b, content[i]? = some b → off.toInt ≤ i → (i : ℤ) < start.toInt → b = 0
  hole : ∀ start stop, f.seekHole start = .ok stop → 0 ≤ start.toInt →
    start.toInt < content.length → start.toInt < stop.toInt ∧ stop.toInt ≤ content.length
  tail : ∀ off, f.seekData off = .error .enxio → 0 ≤ off.toInt →
    ∀ (i : ℕ) b, content[i]? = some b → off.toInt ≤ i → b = 0

variable {content : List UInt8} {f : SourceFile} {size : Int64} {extents : List Extent}

/-- The extents reach up to `off`, and left of it they leave out only zeros. -/
structure ScannedTo (content : List UInt8) (off : ℤ) (extents : List Extent) : Prop where
  runs : Span.Runs 0 off (extents.map Extent.span)
  holes : ∀ (i : ℕ) b, content[i]? = some b → b ≠ 0 → (i : ℤ) < off →
    Span.Covers (extents.map Extent.span) i

/- One pass of the loop: the next run of data goes in. -/
theorem ScannedTo.snoc {off start stop : Int64} (h : ScannedTo content off.toInt extents)
    (hf : Seekable content f) (hoff : 0 ≤ off.toInt) (hlt : off.toInt < content.length)
    (hdata : f.seekData off = .ok start) (hhole : f.seekHole start = .ok stop) :
    off.toInt < stop.toInt ∧ stop.toInt ≤ content.length ∧
      ScannedTo content stop.toInt (extents ++ [⟨start, stop - start⟩]) := by
  obtain ⟨hge, hin, hzero⟩ := hf.data off start hdata hoff hlt
  obtain ⟨hgt, hle⟩ := hf.hole start stop hhole (by omega) hin
  have hmax := stop.toInt_lt
  have hspan : Extent.span ⟨start, stop - start⟩ = ⟨start.toInt, stop.toInt⟩ := by
    simp only [Extent.span, toInt_sub_of_fits (a := stop) (b := start) (by omega) (by omega)]
    congr 1
    omega
  refine ⟨by omega, hle, ?_, fun i b hb hne hi => ?_⟩
  · rw [List.map_append, List.map_singleton, hspan]
    exact h.runs.append (Span.runs_singleton hge hgt le_rfl) hoff (by omega)
  · rw [List.map_append, List.map_singleton, hspan, Span.covers_append, Span.covers_cons]
    by_cases hold : (i : ℤ) < off.toInt
    · exact Or.inl (h.holes i b hb hne hold)
    · right
      left
      refine ⟨?_, hi⟩
      by_contra hbefore
      exact hne (hzero i b hb (by omega) (by simpa using hbefore))

/-- The slices follow one another inside the file and leave out only zeros. -/
structure PlannedAs (content : List UInt8) (pf : PeerFile) : Prop where
  size : pf.size.toInt = content.length
  runs : Span.Runs 0 content.length (pf.slices.map PeerSlice.span)
  holes : ∀ (i : ℕ) b, content[i]? = some b → b ≠ 0 → Span.Covers (pf.slices.map PeerSlice.span) i

/-- A directory as `os.ReadDir` and `os.Open` show it: `contents` are its regular files. -/
structure Listing (contents : GoString → List UInt8) (entries : List DirEntry) : Prop where
  names : ∀ e ∈ entries, Path.IsName unix e.name
  nodup : (entries.map (·.name)).Nodup
  files : ∀ e ∈ entries, e.regular = true → ∀ f, e.file = .ok f → Seekable (contents e.name) f
  fits : ∀ e ∈ entries, e.regular = true →
    ((contents e.name).length : ℤ) + peerSliceBytes.toInt < 2 ^ 63

variable {os : Platform} {fmt : Verbs} {contents : GoString → List UInt8} {fuel : ℕ} {e : DirEntry}
  {entries : List DirEntry} {server : PeerServer} {id : GoString}
  {readDir : GoString → Except String (List DirEntry)}

end VkCocoon.Peer
