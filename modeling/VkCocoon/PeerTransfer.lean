import VkCocoon.Lib.Pool
import VkCocoon.PeerSlices

/-!
# A peer transfer is lossless

Every task of `fetchFiles` takes its slices one after the other: it opens a stream,
feeds what the peer sends to a `sectionWriter` in chunks of any size, flushes, and
checks the length. The writes of all tasks go to one file, interleaved call by call.
No task waits for another: every byte that is written is the byte of the original at
that place, so what is proved is that none is left out.
-/

namespace VkCocoon.Peer
open Lib

def zeroSkipBytes : ℕ := 1 <<< 20
def restoreBufBytes : ℕ := 4 <<< 20

/-- The call `f.WriteAt(data, off)`. -/
structure WriteCall where
  data : List UInt8
  off : Int64
deriving DecidableEq, Repr

/-- `os.File.WriteAt`: a negative offset is an error, and a gap behind the end is filled with zeros. -/
def WriteCall.run (w : WriteCall) (file : List UInt8) : Option (List UInt8) :=
  if w.off < 0 then none
  else
    let pos := w.off.toInt.toNat
    some ((file ++ List.replicate (pos - file.length) 0).take pos ++ w.data ++
      file.drop (pos + w.data.length))

/-- `bytes.Equal(data[start:end], zeroChunk[:end-start])` -/
def zeroChunkAt (data : List UInt8) (start stop : ℕ) : Bool :=
  (data.extract start stop).all (· == 0)

/-- The inner loop: the end of the run of chunks with data that starts at `start`. -/
def runEnd (data : List UInt8) : ℕ → ℕ → ℕ
  | 0, start => start
  | fuel + 1, start =>
    if start < data.length then
      if zeroChunkAt data start (min (start + zeroSkipBytes) data.length) then start
      else runEnd data fuel (min (start + zeroSkipBytes) data.length)
    else start

/-- The outer loop from `start` on: the calls it makes, in order. -/
def writesFrom (data : List UInt8) (off : Int64) : ℕ → ℕ → List WriteCall
  | 0, _ => []
  | fuel + 1, start =>
    if start < data.length then
      if zeroChunkAt data start (min (start + zeroSkipBytes) data.length) then
        writesFrom data off fuel (min (start + zeroSkipBytes) data.length)
      else
        ⟨data.extract start (runEnd data data.length start), off + Int64.ofNat start⟩ ::
          writesFrom data off fuel (runEnd data data.length start)
    else []

/-- Every pass gets ahead by at least one byte, so the length of `data` is fuel enough. -/
def writeSkippingZeros (data : List UInt8) (off : Int64) : List WriteCall :=
  writesFrom data off data.length 0

/-- `buf` is `s.buf[:s.n]` and `cap` is `len(s.buf)`. -/
structure SectionWriter where
  off : Int64
  cap : ℕ
  buf : List UInt8
deriving DecidableEq, Repr

namespace SectionWriter

/-- The writer after `Flush`, and the calls it makes. -/
def flush (s : SectionWriter) : SectionWriter × List WriteCall :=
  if s.buf.length = 0 then (s, [])
  else
    ({ s with off := s.off + Int64.ofNat s.buf.length, buf := [] },
      writeSkippingZeros s.buf s.off)

/-- The loop of `Write` on what is left of `p`. -/
def writeLoop : ℕ → SectionWriter → List UInt8 → SectionWriter × List WriteCall
  | _, s, [] => (s, [])
  | 0, s, _ => (s, [])
  | fuel + 1, s, p =>
    let c := min (s.cap - s.buf.length) p.length
    let s := { s with buf := s.buf ++ p.take c }
    if s.buf.length = s.cap then
      let flushed := s.flush
      let rest := writeLoop fuel flushed.1 (p.drop c)
      (rest.1, flushed.2 ++ rest.2)
    else writeLoop fuel s (p.drop c)

def write (s : SectionWriter) (p : List UInt8) : SectionWriter × List WriteCall :=
  writeLoop p.length s p

end SectionWriter

/-! ### The tasks -/

inductive TaskPC where
  | idle
  /-- `io.CopyBuffer`: `n` bytes were read and the peer will still send `rest` -/
  | copying (sl : PeerSlice) (sw : SectionWriter) (n : ℕ) (rest : List UInt8)
  /-- the stream has ended and was flushed -/
  | checking (sl : PeerSlice) (n : ℕ)
  | failed
deriving DecidableEq, Repr

/-- One goroutine of `fetchFiles`; `writes` are the calls it is about to make. -/
structure Task where
  slices : List PeerSlice
  pc : TaskPC
  writes : List WriteCall
deriving DecidableEq, Repr

inductive TaskEvent where
  /-- The peer answers the request for the next slice with a stream of these bytes. -/
  | answer (stream : List UInt8)
  /-- A read returns the next `n` bytes. -/
  | read (n : ℕ)
  | writeAt
  | eof
  | check
  /-- A request, read or write fails, or the checksum differs. -/
  | fail
deriving DecidableEq, Repr

def Task.step (file : List UInt8) (t : Task) : TaskEvent → Option (List UInt8 × Task)
  | .answer stream =>
    match t.pc, t.slices with
    | .idle, sl :: slices =>
      some (file, { t with slices := slices, pc := .copying sl ⟨sl.offset, restoreBufBytes, []⟩ 0 stream })
    | _, _ => none
  | .read n =>
    match t.pc, t.writes with
    | .copying sl sw got rest, [] =>
      if 0 < n ∧ n ≤ rest.length then
        let r := sw.write (rest.take n)
        some (file, { t with pc := .copying sl r.1 (got + n) (rest.drop n), writes := r.2 })
      else none
    | _, _ => none
  | .writeAt =>
    match t.pc, t.writes with
    | .failed, _ => none
    | _, [] => none
    | _, w :: writes =>
      match w.run file with
      | some file => some (file, { t with writes := writes })
      | none => some (file, { t with pc := .failed })
  | .eof =>
    match t.pc, t.writes with
    | .copying sl sw got [], [] => some (file, { t with pc := .checking sl got, writes := sw.flush.2 })
    | _, _ => none
  | .check =>
    match t.pc, t.writes with
    | .checking sl got, [] =>
      if Int64.ofNat got = sl.length then some (file, { t with pc := .idle })
      else some (file, { t with pc := .failed })
    | _, _ => none
  | .fail => if t.pc = .failed then none else some (file, { t with pc := .failed })

/-- The goroutines over the file they share; nobody joins them. -/
def transfer : Program (List UInt8) Task TaskEvent Empty :=
  Program.ofStep (fun _ _ => false) (fun file _ t a => t.step file a) fun _ o => nomatch o

/-- `f.Truncate(pf.Size)`, then one goroutine for each group. -/
def startTransfer (size : Int64) (groups : List (List PeerSlice)) : Config (List UInt8) Task :=
  ⟨List.replicate size.toInt.toNat 0, groups.map fun slices => ⟨slices, .idle, []⟩⟩

def Task.done (t : Task) : Prop := t.slices = [] ∧ t.pc = .idle ∧ t.writes = []

/-! ### What the calls of `writeSkippingZeros` write -/

theorem getElem?_extract {α : Type} (l : List α) (a b j : ℕ) :
    (l.extract a b)[j]? = if j < b - a then l[a + j]? else none := by
  rw [List.extract_eq_take_drop, List.getElem?_take, List.getElem?_drop]

theorem length_extract {α : Type} (l : List α) {a b : ℕ} (h : b ≤ l.length) :
    (l.extract a b).length = b - a := by
  rw [List.extract_eq_take_drop, List.length_take, List.length_drop]
  omega

theorem extract_append_left {α : Type} (l l' : List α) {a b : ℕ} (h : b ≤ l.length) :
    (l ++ l').extract a b = l.extract a b := by
  apply List.ext_getElem?
  intro j
  rw [getElem?_extract, getElem?_extract]
  split
  · rw [List.getElem?_append_left (by omega)]
  · rfl

theorem extract_append_right {α : Type} (l l' : List α) (a b : ℕ) :
    (l ++ l').extract (l.length + a) (l.length + b) = l'.extract a b := by
  apply List.ext_getElem?
  intro j
  rw [getElem?_extract, getElem?_extract, List.getElem?_append_right (by omega),
    show l.length + b - (l.length + a) = b - a by omega,
    show l.length + a + j - l.length = a + j by omega]

theorem extract_extract {α : Type} (l : List α) {p n a b : ℕ} (h : b ≤ n) :
    (l.extract p (p + n)).extract a b = l.extract (p + a) (p + b) := by
  apply List.ext_getElem?
  intro j
  rw [getElem?_extract, getElem?_extract, getElem?_extract,
    show p + b - (p + a) = b - a by omega, show p + n - p = n by omega, Nat.add_assoc]
  split
  · rw [if_pos (by omega)]
  · rfl

/- A stretch of a list that is cut in two. -/
theorem extract_split {α : Type} {l x y : List α} {p : ℕ}
    (h : x ++ y = l.extract p (p + x.length + y.length)) :
    x = l.extract p (p + x.length) ∧
      y = l.extract (p + x.length) (p + x.length + y.length) := by
  constructor
  · calc x = (x ++ y).extract 0 x.length := by
          rw [extract_append_left x y le_rfl, List.extract_eq_take_drop, List.drop_zero, Nat.sub_zero,
            List.take_length]
      _ = l.extract p (p + x.length) := by
          rw [h, Nat.add_assoc, extract_extract l (by omega), Nat.add_zero]
  · calc y = (x ++ y).extract (x.length + 0) (x.length + y.length) := by
          rw [extract_append_right, List.extract_eq_take_drop, List.drop_zero, Nat.sub_zero,
            List.take_length]
      _ = l.extract (p + x.length) (p + x.length + y.length) := by
          rw [h, Nat.add_assoc, extract_extract l le_rfl, Nat.add_zero]

theorem zero_of_zeroChunkAt {data : List UInt8} {start stop j : ℕ} {b : UInt8}
    (hz : zeroChunkAt data start stop = true) (hj : start ≤ j) (hj' : j < stop)
    (hb : data[j]? = some b) : b = 0 := by
  have hin : (data.extract start stop)[j - start]? = some b := by
    rw [getElem?_extract, if_pos (by omega), Nat.add_sub_cancel' hj, hb]
  have hall := List.all_eq_true.mp hz b (List.mem_of_getElem? hin)
  simpa using hall

theorem zeroSkipBytes_pos : 0 < zeroSkipBytes := by decide

theorem runEnd_bounds (data : List UInt8) (fuel start : ℕ) (h : start ≤ data.length) :
    start ≤ runEnd data fuel start ∧ runEnd data fuel start ≤ data.length := by
  have hpos := zeroSkipBytes_pos
  induction fuel generalizing start with
  | zero => exact ⟨le_rfl, h⟩
  | succ fuel ih =>
    simp only [runEnd]
    split
    · split
      · exact ⟨le_rfl, h⟩
      · obtain ⟨h1, h2⟩ := ih (min (start + zeroSkipBytes) data.length) (by omega)
        exact ⟨by omega, h2⟩
    · exact ⟨le_rfl, h⟩

theorem runEnd_gt {data : List UInt8} {start : ℕ} (h : start < data.length)
    (hz : zeroChunkAt data start (min (start + zeroSkipBytes) data.length) = false) :
    start < runEnd data data.length start := by
  have hpos := zeroSkipBytes_pos
  obtain ⟨fuel, hfuel⟩ : ∃ fuel, data.length = fuel + 1 := ⟨data.length - 1, by omega⟩
  have hnext : runEnd data data.length start =
      runEnd data fuel (min (start + zeroSkipBytes) data.length) := by
    rw [hfuel, runEnd, if_pos (by omega), ← hfuel, hz]
    rfl
  have hb := (runEnd_bounds data fuel (min (start + zeroSkipBytes) data.length) (by omega)).1
  omega

/-- The calls write bytes of `data` in their place from `off` on, and every byte that is
not zero. -/
structure Writes (ws : List WriteCall) (data : List UInt8) (off : Int64) : Prop where
  exact : ∀ w ∈ ws, ∃ a, w.off = off + Int64.ofNat a ∧ a + w.data.length ≤ data.length ∧
    w.data = data.extract a (a + w.data.length)
  covers : ∀ j b, data[j]? = some b → b ≠ 0 →
    ∃ w ∈ ws, ∃ a, w.off = off + Int64.ofNat a ∧ a ≤ j ∧ j < a + w.data.length
  count : ws.length ≤ data.length

theorem writesFrom_spec (data : List UInt8) (off : Int64) (fuel start : ℕ)
    (hfuel : data.length ≤ start + fuel) (hstart : start ≤ data.length) :
    (∀ w ∈ writesFrom data off fuel start, ∃ a, w.off = off + Int64.ofNat a ∧
      a + w.data.length ≤ data.length ∧ w.data = data.extract a (a + w.data.length)) ∧
    (∀ j b, start ≤ j → data[j]? = some b → b ≠ 0 →
      ∃ w ∈ writesFrom data off fuel start, ∃ a, w.off = off + Int64.ofNat a ∧ a ≤ j ∧
        j < a + w.data.length) ∧
    (writesFrom data off fuel start).length + start ≤ data.length := by
  have hpos := zeroSkipBytes_pos
  induction fuel generalizing start with
  | zero =>
    refine ⟨fun w hw => (by cases hw), fun j b hj hb _ => ?_, by simpa [writesFrom] using hstart⟩
    have hlt := (List.getElem?_eq_some_iff.mp hb).1
    omega
  | succ fuel ih =>
    by_cases hlt : start < data.length
    · cases hz : zeroChunkAt data start (min (start + zeroSkipBytes) data.length) with
      | true =>
        have hrec : writesFrom data off (fuel + 1) start =
            writesFrom data off fuel (min (start + zeroSkipBytes) data.length) := by
          rw [writesFrom, if_pos hlt, if_pos hz]
        rw [hrec]
        obtain ⟨hexact, hcov, hcount⟩ :=
          ih (min (start + zeroSkipBytes) data.length) (by omega) (by omega)
        refine ⟨hexact, fun j b hj hb hne => ?_, by omega⟩
        by_cases hin : j < min (start + zeroSkipBytes) data.length
        · exact absurd (zero_of_zeroChunkAt hz hj hin hb) hne
        · exact hcov j b (by omega) hb hne
      | false =>
        have hend := runEnd_gt hlt hz
        have hend' := (runEnd_bounds data data.length start hstart).2
        have hrec : writesFrom data off (fuel + 1) start =
            ⟨data.extract start (runEnd data data.length start), off + Int64.ofNat start⟩ ::
              writesFrom data off fuel (runEnd data data.length start) := by
          rw [writesFrom, if_pos hlt, if_neg (by rw [hz]; decide)]
        have hlen := length_extract data (a := start) hend'
        rw [hrec]
        obtain ⟨hexact, hcov, hcount⟩ := ih (runEnd data data.length start) (by omega) hend'
        refine ⟨?_, ?_, by simp only [List.length_cons]; omega⟩
        · intro w hw
          rcases List.mem_cons.mp hw with rfl | hw
          · refine ⟨start, rfl, by simp only [hlen]; omega, ?_⟩
            simp only [hlen]
            rw [Nat.add_sub_cancel' hend.le]
          · exact hexact w hw
        · intro j b hj hb hne
          by_cases hin : j < runEnd data data.length start
          · exact ⟨_, List.mem_cons_self, start, rfl, hj, by simp only [hlen]; omega⟩
          · obtain ⟨w, hw, hrest⟩ := hcov j b (by omega) hb hne
            exact ⟨w, List.mem_cons_of_mem _ hw, hrest⟩
    · rw [writesFrom, if_neg hlt]
      refine ⟨fun w hw => (by cases hw), fun j b hj hb _ => ?_, by simpa using hstart⟩
      have hlt' := (List.getElem?_eq_some_iff.mp hb).1
      omega

theorem writeSkippingZeros_writes (data : List UInt8) (off : Int64) :
    Writes (writeSkippingZeros data off) data off := by
  obtain ⟨hexact, hcov, hcount⟩ := writesFrom_spec data off data.length 0 (by omega) (by omega)
  exact ⟨hexact, fun j b hb hne => hcov j b (by omega) hb hne, hcount⟩

theorem writes_nil (off : Int64) : Writes [] [] off :=
  ⟨fun w hw => (by cases hw), fun j b hb => (by simp at hb), le_rfl⟩

/- Two stretches of one stream, written one after the other. -/
theorem Writes.append {ws ws' : List WriteCall} {data data' : List UInt8} {off : Int64}
    (h : Writes ws data off) (h' : Writes ws' data' (off + Int64.ofNat data.length)) :
    Writes (ws ++ ws') (data ++ data') off := by
  have hshift : ∀ a, off + Int64.ofNat data.length + Int64.ofNat a =
      off + Int64.ofNat (data.length + a) := by
    intro a
    rw [Int64.ofNat_add, Int64.add_assoc]
  refine ⟨fun w hw => ?_, fun j b hb hne => ?_, ?_⟩
  · rcases List.mem_append.mp hw with hw | hw
    · obtain ⟨a, hoff, hle, hdata⟩ := h.exact w hw
      refine ⟨a, hoff, by rw [List.length_append]; omega, hdata.trans ?_⟩
      exact (extract_append_left data data' hle).symm
    · obtain ⟨a, hoff, hle, hdata⟩ := h'.exact w hw
      refine ⟨data.length + a, hoff.trans (hshift a), by rw [List.length_append]; omega, hdata.trans ?_⟩
      rw [Nat.add_assoc]
      exact (extract_append_right data data' a _).symm
  · rw [List.getElem?_append] at hb
    split at hb
    · obtain ⟨w, hw, hrest⟩ := h.covers j b hb hne
      exact ⟨w, List.mem_append_left _ hw, hrest⟩
    · obtain ⟨w, hw, a, hoff, hle, hlt⟩ := h'.covers _ b hb hne
      exact ⟨w, List.mem_append_right _ hw, data.length + a, hoff.trans (hshift a), by omega, by omega⟩
  · have hc := h.count
    have hc' := h'.count
    simp only [List.length_append]
    omega

/-! ### The section writer -/

namespace SectionWriter

theorem flush_writes (s : SectionWriter) : Writes s.flush.2 s.buf s.off := by
  unfold flush
  split
  next h =>
    rw [List.length_eq_zero_iff.mp h]
    exact writes_nil s.off
  next => exact writeSkippingZeros_writes s.buf s.off

/-- From `s`, the bytes `p` went out through `ws` or are in the buffer of `s'`, in order. -/
structure Took (s : SectionWriter) (p : List UInt8) (s' : SectionWriter) (ws : List WriteCall) :
    Prop where
  cap : s'.cap = s.cap
  room : s'.buf.length < s'.cap
  bytes : ∃ out, s.buf ++ p = out ++ s'.buf ∧ s'.off = s.off + Int64.ofNat out.length ∧
    Writes ws out s.off

theorem took_nil {s : SectionWriter} (h : s.buf.length < s.cap) : Took s [] s [] :=
  ⟨rfl, h, [], by rw [List.append_nil, List.nil_append],
    by rw [List.length_nil]; exact (Int64.add_zero s.off).symm, writes_nil s.off⟩

theorem writeLoop_took (fuel : ℕ) (s : SectionWriter) (p : List UInt8) (hroom : s.buf.length < s.cap)
    (hfuel : p.length ≤ fuel) : Took s p (writeLoop fuel s p).1 (writeLoop fuel s p).2 := by
  induction fuel generalizing s p with
  | zero =>
    have hnil : p = [] := List.length_eq_zero_iff.mp (by omega)
    subst hnil
    exact took_nil hroom
  | succ fuel ih =>
    cases p with
    | nil => exact took_nil hroom
    | cons x xs =>
      let c := min (s.cap - s.buf.length) (x :: xs).length
      let s₁ : SectionWriter := { s with buf := s.buf ++ (x :: xs).take c }
      have hc : 0 < c := by
        simp only [c, List.length_cons]
        omega
      have hdrop : ((x :: xs).drop c).length ≤ fuel := by
        rw [List.length_drop]
        omega
      have hlen : s₁.buf.length = s.buf.length + c := by
        simp only [s₁, List.length_append, List.length_take]
        omega
      have hsplit : s.buf ++ (x :: xs) = s₁.buf ++ (x :: xs).drop c := by
        simp only [s₁, List.append_assoc, List.take_append_drop]
      by_cases hfull : s₁.buf.length = s.cap
      · let s₂ : SectionWriter := { s₁ with off := s.off + Int64.ofNat s₁.buf.length, buf := [] }
        have hflush : s₁.flush.1 = s₂ := by
          rw [flush, if_neg (by omega)]
        have hrec : writeLoop (fuel + 1) s (x :: xs) =
            ((writeLoop fuel s₂ ((x :: xs).drop c)).1,
              s₁.flush.2 ++ (writeLoop fuel s₂ ((x :: xs).drop c)).2) := by
          rw [← hflush, writeLoop, if_pos hfull]
          exact fun h => by cases h
        obtain ⟨hcap, hroom', out, hbytes, hoff, hws⟩ :=
          ih s₂ ((x :: xs).drop c) (by simp only [s₂, s₁, List.length_nil]; omega) hdrop
        rw [hrec]
        refine ⟨hcap, hroom', s₁.buf ++ out, ?_, ?_, s₁.flush_writes.append hws⟩
        · calc s.buf ++ (x :: xs) = s₁.buf ++ (x :: xs).drop c := hsplit
            _ = s₁.buf ++ (out ++ (writeLoop fuel s₂ ((x :: xs).drop c)).1.buf) :=
              congrArg (s₁.buf ++ ·) hbytes
            _ = s₁.buf ++ out ++ (writeLoop fuel s₂ ((x :: xs).drop c)).1.buf :=
              (List.append_assoc ..).symm
        · rw [List.length_append, Int64.ofNat_add, ← Int64.add_assoc]
          exact hoff
      · have hrec : writeLoop (fuel + 1) s (x :: xs) = writeLoop fuel s₁ ((x :: xs).drop c) := by
          rw [writeLoop, if_neg hfull]
          exact fun h => by cases h
        obtain ⟨hcap, hroom', out, hbytes, hoff, hws⟩ :=
          ih s₁ ((x :: xs).drop c) (by simp only [s₁] at hlen hfull ⊢; omega) hdrop
        rw [hrec]
        exact ⟨hcap, hroom', out, by rw [hsplit, hbytes], hoff, hws⟩

theorem write_took (s : SectionWriter) (p : List UInt8) (hroom : s.buf.length < s.cap) :
    Took s p (s.write p).1 (s.write p).2 :=
  writeLoop_took p.length s p hroom le_rfl

end SectionWriter

/-! ### One task -/

section Content
variable (content : List UInt8)

/-- The call writes bytes of the original in their place. -/
def WriteCall.Honest (w : WriteCall) : Prop :=
  ∃ pos : ℕ, w.off.toInt = pos ∧ pos + w.data.length ≤ content.length ∧
    w.data = content.extract pos (pos + w.data.length)

/-- The file has the size of the original, and where it differs it is still zero. -/
def Below (file : List UInt8) : Prop :=
  file.length = content.length ∧ ∀ i : ℕ, file[i]? = content[i]? ∨ file[i]? = some 0

def PeerSlice.Inside (sl : PeerSlice) : Prop :=
  0 ≤ sl.span.start ∧ sl.span.start < sl.span.stop ∧ sl.span.stop ≤ content.length

/-- The bytes of the original at a slice. -/
def PeerSlice.bytes (sl : PeerSlice) : List UInt8 :=
  content.extract sl.span.start.toNat sl.span.stop.toNat

/-- `pc` works on the bytes of the original; a task that has given up does not. -/
def TaskPC.Honest : TaskPC → Prop
  | .idle => True
  | .copying sl sw n rest =>
    sl.Inside content ∧ sw.buf.length < sw.cap ∧ (n : ℤ) + rest.length = sl.length.toInt ∧
    ∃ pos : ℕ, sw.off.toInt = pos ∧ (pos : ℤ) + sw.buf.length + rest.length = sl.span.stop ∧
      sw.buf ++ rest = content.extract pos (pos + sw.buf.length + rest.length)
  | .checking sl n => (n : ℤ) = sl.length.toInt
  | .failed => False

structure Task.Honest (t : Task) : Prop where
  slices : ∀ sl ∈ t.slices, sl.Inside content
  pc : t.pc.Honest content
  writes : ∀ w ∈ t.writes, w.Honest content
  idle : t.pc = .idle → t.writes = []

end Content

/-- The position is still to be written by this task, if its byte is not zero. -/
def Task.Owes (t : Task) (i : ℕ) : Prop :=
  (∃ w ∈ t.writes, w.off.toInt ≤ i ∧ (i : ℤ) < w.off.toInt + w.data.length) ∨
  (∃ sl sw n rest, t.pc = .copying sl sw n rest ∧ sw.off.toInt ≤ i ∧ (i : ℤ) < sl.span.stop) ∨
  ∃ sl ∈ t.slices, sl.span.Has i

/-- The peer sends the bytes it holds for the slice, and nothing fails on the way. -/
def Task.Delivers (content : List UInt8) (t : Task) : TaskEvent → Prop
  | .answer stream => ∀ sl ∈ t.slices.head?, stream = sl.bytes content
  | .fail => False
  | _ => True

variable {content file file' : List UInt8} {t t' : Task} {a : TaskEvent}

theorem honest_run {w : WriteCall} (hw : w.Honest content) (hf : Below content file) :
    ∃ file', w.run file = some file' ∧ Below content file' ∧
      (∀ i : ℕ, file[i]? = content[i]? → file'[i]? = content[i]?) ∧
      ∀ i : ℕ, w.off.toInt ≤ i → (i : ℤ) < w.off.toInt + w.data.length → file'[i]? = content[i]? := by
  obtain ⟨pos, hpos, hle, hdata⟩ := hw
  obtain ⟨hlen, hbelow⟩ := hf
  have hget : ∀ j, (file.take pos ++ w.data ++ file.drop (pos + w.data.length))[j]? =
      if pos ≤ j ∧ j < pos + w.data.length then content[j]? else file[j]? := by
    intro j
    have htake : (file.take pos).length = pos := by
      rw [List.length_take]
      omega
    rw [List.append_assoc, List.getElem?_append, htake, List.getElem?_append, List.getElem?_drop]
    by_cases hj : j < pos
    · rw [if_pos hj, if_neg (by omega), List.getElem?_take, if_pos hj]
    · rw [if_neg hj]
      by_cases hj' : j < pos + w.data.length
      · rw [if_pos (by omega), if_pos (by omega), hdata, getElem?_extract, if_pos (by omega)]
        congr 1
        omega
      · rw [if_neg (by omega), if_neg (by omega)]
        congr 1
        omega
  refine ⟨file.take pos ++ w.data ++ file.drop (pos + w.data.length), ?_, ⟨?_, ?_⟩, ?_, ?_⟩
  · have hzero : (0 : Int64).toInt = 0 := rfl
    have hpad : pos - file.length = 0 := by omega
    simp only [WriteCall.run, Int64.lt_iff_toInt_lt, hzero, hpos, Int.toNat_natCast, hpad,
      List.replicate_zero, List.append_nil]
    rw [if_neg (by omega)]
  · simp only [List.length_append, List.length_take, List.length_drop]
    omega
  · intro i
    rw [hget]
    split
    · exact Or.inl rfl
    · exact hbelow i
  · intro i hi
    rw [hget]
    split
    · rfl
    · exact hi
  · intro i h1 h2
    rw [hget, if_pos (by omega)]

/- What goes out of a writer that was fed bytes of the original. -/
theorem Writes.honest {ws : List WriteCall} {data : List UInt8} {off : Int64} {pos : ℕ}
    (h : Writes ws data off) (hfit : (content.length : ℤ) < 2 ^ 63) (hpos : off.toInt = pos)
    (hle : pos + data.length ≤ content.length)
    (hdata : data = content.extract pos (pos + data.length)) :
    (∀ w ∈ ws, w.Honest content) ∧
    ∀ (i : ℕ) b, content[i]? = some b → b ≠ 0 → pos ≤ i → i < pos + data.length →
      ∃ w ∈ ws, w.off.toInt ≤ i ∧ (i : ℤ) < w.off.toInt + w.data.length := by
  have hoff : ∀ a, a ≤ data.length → (off + Int64.ofNat a).toInt = ((pos + a : ℕ) : ℤ) := by
    intro a ha
    have hsmall : (Int64.ofNat a).toInt = a := toInt_ofNat_of_fits (by omega)
    rw [toInt_add_of_fits (by omega) (by omega)]
    omega
  constructor
  · intro w hw
    obtain ⟨a, hwoff, hwle, hwdata⟩ := h.exact w hw
    refine ⟨pos + a, by rw [hwoff, hoff a (by omega)], by omega, hwdata.trans ?_⟩
    rw [hdata, extract_extract content hwle, Nat.add_assoc]
  · intro i b hb hne h1 h2
    have hin : data[i - pos]? = some b := by
      rw [hdata, getElem?_extract, if_pos (by omega), Nat.add_sub_cancel' h1, hb]
    obtain ⟨w, hw, a, hwoff, hle', hlt⟩ := h.covers (i - pos) b hin hne
    refine ⟨w, hw, ?_⟩
    rw [hwoff, hoff a (by omega)]
    omega

/-! ### The steps of a task -/

def TaskPC.work : TaskPC → ℕ
  | .idle => 0
  | .copying _ sw _ rest => 3 + 2 * rest.length + sw.buf.length
  | .checking _ _ => 2
  | .failed => 0

def PeerSlice.work (sl : PeerSlice) : ℕ := 4 + 2 * sl.length.toInt.toNat

/-- The steps a task has left, at most. -/
def Task.work (t : Task) : ℕ := t.writes.length + t.pc.work + (t.slices.map PeerSlice.work).sum

/-- What a step of a task does to the file and to what the task owes it. -/
structure Advances (content file : List UInt8) (t : Task) (file' : List UInt8) (t' : Task) : Prop where
  below : Below content file'
  honest : t'.Honest content
  keeps : ∀ i : ℕ, file[i]? = content[i]? → file'[i]? = content[i]?
  owes : ∀ (i : ℕ) b, content[i]? = some b → b ≠ 0 → t.Owes i → t'.Owes i ∨ file'[i]? = content[i]?
  work : t'.work < t.work

theorem length_bytes {sl : PeerSlice} (h : sl.Inside content) :
    (sl.bytes content).length = sl.length.toInt.toNat := by
  obtain ⟨h1, h2, h3⟩ := h
  rw [PeerSlice.bytes, length_extract content (by omega)]
  simp only [PeerSlice.span] at *
  omega

theorem answer_advances {stream : List UInt8} (ht : t.Honest content) (hf : Below content file)
    (hd : t.Delivers content (.answer stream)) (h : t.step file (.answer stream) = some (file', t')) :
    Advances content file t file' t' := by
  obtain ⟨slices, pc, writes⟩ := t
  cases pc with
  | idle =>
    cases slices with
    | nil => cases h
    | cons sl slices =>
      cases h
      have hnil : writes = [] := ht.idle rfl
      subst hnil
      have hin : sl.Inside content := ht.slices sl List.mem_cons_self
      have hstream : stream = sl.bytes content := hd sl rfl
      have hlen : stream.length = sl.length.toInt.toNat := by rw [hstream, length_bytes hin]
      obtain ⟨h1, h2, h3⟩ := hin
      have hspan : sl.span.start = sl.offset.toInt ∧
        sl.span.stop = sl.offset.toInt + sl.length.toInt := ⟨rfl, rfl⟩
      refine ⟨hf, ⟨fun s hs => ht.slices s (List.mem_cons_of_mem sl hs), ?_, fun w hw => (by cases hw),
        fun _ => rfl⟩, fun i hi => hi, fun i b _ _ ho => ?_, ?_⟩
      · refine ⟨⟨h1, h2, h3⟩, (by decide : 0 < restoreBufBytes), by omega, sl.span.start.toNat, ?_, ?_, ?_⟩
        · show sl.offset.toInt = _
          omega
        · simp only [List.length_nil]
          omega
        · rw [List.nil_append, hstream, PeerSlice.bytes]
          congr 1
          rw [← PeerSlice.bytes, ← hstream, hlen, List.length_nil]
          omega
      · rcases ho with ⟨w, hw, -⟩ | ⟨_, _, _, _, hpc, -⟩ | ⟨s, hs, hin⟩
        · cases hw
        · cases hpc
        · left
          rcases List.mem_cons.mp hs with rfl | hs
          · exact Or.inr (Or.inl ⟨_, _, _, _, rfl, hin.1, hin.2⟩)
          · exact Or.inr (Or.inr ⟨s, hs, hin⟩)
      · simp only [Task.work, TaskPC.work, List.map_cons, List.sum_cons, List.length_nil,
          PeerSlice.work, hlen]
        omega
  | copying | checking | failed => cases h

theorem read_advances {n : ℕ} (hfit : (content.length : ℤ) < 2 ^ 63) (ht : t.Honest content)
    (hf : Below content file) (h : t.step file (.read n) = some (file', t')) :
    Advances content file t file' t' := by
  obtain ⟨slices, pc, writes⟩ := t
  cases pc with
  | copying sl sw got rest =>
    cases writes with
    | cons w writes => cases h
    | nil =>
      simp only [Task.step] at h
      split at h
      next hn =>
        cases h
        obtain ⟨hsl, hroom, hgot, pos, hpos, hend, hbytes⟩ := ht.pc
        obtain ⟨hcap, hroom', out, hout, hoff, hws⟩ := sw.write_took (rest.take n) hroom
        obtain ⟨h1, h2, h3⟩ := hsl
        -- what was in the buffer and on the way is what went out and what is left
        have hall : out ++ ((sw.write (rest.take n)).1.buf ++ rest.drop n) = sw.buf ++ rest := by
          rw [← List.append_assoc, ← hout, List.append_assoc, List.take_append_drop]
        have hlen := congrArg List.length hall
        simp only [List.length_append, List.length_drop] at hlen
        have hcut : out ++ ((sw.write (rest.take n)).1.buf ++ rest.drop n) = content.extract pos
            (pos + out.length + ((sw.write (rest.take n)).1.buf ++ rest.drop n).length) := by
          rw [hall, hbytes]
          congr 1
          simp only [List.length_append, List.length_drop]
          omega
        obtain ⟨hleft, hright⟩ := extract_split hcut
        obtain ⟨hhonest, hcov⟩ := hws.honest hfit hpos (by omega) hleft
        have hoff' : (sw.write (rest.take n)).1.off.toInt = ((pos + out.length : ℕ) : ℤ) := by
          have hsmall : (Int64.ofNat out.length).toInt = out.length := toInt_ofNat_of_fits (by omega)
          rw [hoff, toInt_add_of_fits (by omega) (by omega)]
          omega
        refine ⟨hf, ⟨ht.slices, ?_, hhonest, fun hpc => (by cases hpc)⟩, fun i hi => hi, ?_, ?_⟩
        · refine ⟨⟨h1, h2, h3⟩, hroom', ?_, pos + out.length, hoff', ?_, ?_⟩
          · rw [List.length_drop]
            omega
          · rw [List.length_drop]
            omega
          · rw [List.length_append] at hright
            rw [Nat.add_assoc (pos + out.length)]
            exact hright
        · intro i b hb hne ho
          left
          rcases ho with ⟨w, hw, -⟩ | ⟨_, _, _, _, hpc, hi, hi'⟩ | hsl
          · cases hw
          · cases hpc
            by_cases hin : i < pos + out.length
            · exact Or.inl (hcov i b hb hne (by omega) hin)
            · exact Or.inr (Or.inl ⟨_, _, _, _, rfl, by omega, hi'⟩)
          · exact Or.inr (Or.inr hsl)
        · have hcount := hws.count
          simp only [Task.work, TaskPC.work, List.length_nil, List.length_drop]
          omega
      next => cases h
  | idle | checking | failed => cases h

theorem eof_advances (hfit : (content.length : ℤ) < 2 ^ 63) (ht : t.Honest content)
    (hf : Below content file) (h : t.step file .eof = some (file', t')) :
    Advances content file t file' t' := by
  obtain ⟨slices, pc, writes⟩ := t
  cases pc with
  | copying sl sw got rest =>
    cases rest with
    | cons x rest => cases writes <;> cases h
    | nil =>
      cases writes with
      | cons w writes => cases h
      | nil =>
        cases h
        obtain ⟨hsl, hroom, hgot, pos, hpos, hend, hbytes⟩ := ht.pc
        simp only [List.length_nil, List.append_nil, Nat.add_zero] at hgot hend hbytes
        obtain ⟨h1, h2, h3⟩ := hsl
        obtain ⟨hhonest, hcov⟩ := sw.flush_writes.honest hfit hpos (by omega) hbytes
        refine ⟨hf, ⟨ht.slices, ?_, hhonest, fun hpc => (by cases hpc)⟩, fun i hi => hi, ?_, ?_⟩
        · simp only [TaskPC.Honest]
          omega
        · intro i b hb hne ho
          left
          rcases ho with ⟨w, hw, -⟩ | ⟨_, _, _, _, hpc, hi, hi'⟩ | hsl
          · cases hw
          · cases hpc
            exact Or.inl (hcov i b hb hne (by omega) (by omega))
          · exact Or.inr (Or.inr hsl)
        · have hcount := sw.flush_writes.count
          simp only [Task.work, TaskPC.work, List.length_nil]
          omega
  | idle | checking | failed => cases h

theorem check_advances (ht : t.Honest content)
    (hf : Below content file) (h : t.step file .check = some (file', t')) :
    Advances content file t file' t' := by
  obtain ⟨slices, pc, writes⟩ := t
  cases pc with
  | checking sl got =>
    cases writes with
    | cons w writes => cases h
    | nil =>
      have hgot : (got : ℤ) = sl.length.toInt := ht.pc
      have hmax := sl.length.toInt_lt
      have hsame : Int64.ofNat got = sl.length := by
        rw [← Int64.toInt_inj, toInt_ofNat_of_fits (by omega), hgot]
      simp only [Task.step, if_pos hsame] at h
      cases h
      refine ⟨hf, ⟨ht.slices, trivial, ht.writes, fun _ => rfl⟩, fun i hi => hi, ?_, ?_⟩
      · intro i b _ _ ho
        left
        rcases ho with ⟨w, hw, -⟩ | ⟨_, _, _, _, hpc, -⟩ | hsl
        · cases hw
        · cases hpc
        · exact Or.inr (Or.inr hsl)
      · simp only [Task.work, TaskPC.work]
        omega
  | idle | copying | failed => cases h

theorem writeAt_advances (ht : t.Honest content)
    (hf : Below content file) (h : t.step file .writeAt = some (file', t')) :
    Advances content file t file' t' := by
  obtain ⟨slices, pc, writes⟩ := t
  cases writes with
  | nil => cases pc <;> cases h
  | cons w writes =>
    obtain ⟨file₁, hrun, hbelow, hkeeps, hwrote⟩ := honest_run (ht.writes w List.mem_cons_self) hf
    have hres : some (file₁, { slices := slices, pc := pc, writes := writes : Task }) =
        some (file', t') := by
      cases pc with
      | failed => cases h
      | idle | copying | checking => simpa only [Task.step, hrun] using h
    cases hres
    refine ⟨hbelow, ⟨ht.slices, ht.pc, fun w' hw' => ht.writes w' (List.mem_cons_of_mem w hw'), ?_⟩,
      hkeeps, ?_, ?_⟩
    · intro hpc
      have hnil := ht.idle hpc
      cases hnil
    · intro i b _ _ ho
      rcases ho with ⟨w', hw', hi, hi'⟩ | hrest
      · rcases List.mem_cons.mp hw' with rfl | hw'
        · exact Or.inr (hwrote i hi hi')
        · exact Or.inl (Or.inl ⟨w', hw', hi, hi'⟩)
      · exact Or.inl (Or.inr hrest)
    · simp only [Task.work, List.length_cons]
      omega

theorem step_advances (hfit : (content.length : ℤ) < 2 ^ 63) (ht : t.Honest content)
    (hf : Below content file) (hd : t.Delivers content a) (h : t.step file a = some (file', t')) :
    Advances content file t file' t' := by
  cases a with
  | answer stream => exact answer_advances ht hf hd h
  | read n => exact read_advances hfit ht hf h
  | writeAt => exact writeAt_advances ht hf h
  | eof => exact eof_advances hfit ht hf h
  | check => exact check_advances ht hf h
  | fail => exact hd.elim

/-! ### The whole transfer -/

section Transfer
variable (content)

/-- Every stream of the run carries the bytes of its slice, and nothing fails. -/
def Delivering (c : Config (List UInt8) Task) : PoolEvent Task TaskEvent Empty → Prop
  | .run i a => ∀ t ∈ c.threads[i]?, t.Delivers content a
  | _ => True

/-- Every task works on bytes of the original, and each byte that is not zero has been
written or is owed by a task. -/
structure Accounted (c : Config (List UInt8) Task) : Prop where
  below : Below content c.shared
  honest : ∀ t ∈ c.threads, t.Honest content
  owed : ∀ (i : ℕ) b, content[i]? = some b → b ≠ 0 →
    c.shared[i]? = content[i]? ∨ ∃ t ∈ c.threads, t.Owes i

def transferWork (c : Config (List UInt8) Task) : ℕ := (c.threads.map Task.work).sum

variable {content}

theorem sum_map_set_lt {τ : Type} (f : τ → ℕ) {ts : List τ} {i : ℕ} {t t' : τ}
    (h : ts[i]? = some t) (hlt : f t' < f t) : ((ts.set i t').map f).sum < (ts.map f).sum := by
  induction ts generalizing i with
  | nil => cases h
  | cons u ts ih =>
    cases i with
    | zero =>
      cases h
      simp only [List.set_cons_zero, List.map_cons, List.sum_cons]
      omega
    | succ i =>
      have hrest := ih (i := i) h
      simp only [List.set_cons_succ, List.map_cons, List.sum_cons]
      omega

theorem next_accounted (hfit : (content.length : ℤ) < 2 ^ 63) {c c' : Config (List UInt8) Task}
    {e : PoolEvent Task TaskEvent Empty} (hc : Accounted content c) (hd : Delivering content c e)
    (h : transfer.next c e = some c') : Accounted content c' ∧ transferWork c' < transferWork c := by
  cases e with
  | start t => cases h
  | env o => cases o
  | run i a =>
    obtain ⟨t, file', t', ht, hs, rfl⟩ := Program.ofStep_run h
    have hmem : t ∈ c.threads := List.mem_of_getElem? ht
    have hadv := step_advances hfit (hc.honest t hmem) hc.below (hd t ht) hs
    refine ⟨⟨hadv.below, fun u hu => ?_, fun j b hb hne => ?_⟩, sum_map_set_lt Task.work ht hadv.work⟩
    · rcases List.mem_or_eq_of_mem_set hu with hu | rfl
      · exact hc.honest u hu
      · exact hadv.honest
    · rcases hc.owed j b hb hne with hdone | ⟨u, hu, howes⟩
      · exact Or.inl (hadv.keeps j hdone)
      · obtain ⟨k, hk⟩ := List.mem_iff_getElem?.mp hu
        have hi : i < c.threads.length := (List.getElem?_eq_some_iff.mp ht).1
        by_cases hik : i = k
        · subst hik
          rw [ht] at hk
          cases hk
          rcases hadv.owes j b hb hne howes with ho | hdone
          · exact Or.inr ⟨t', List.mem_of_getElem? (List.getElem?_set_self hi), ho⟩
          · exact Or.inl hdone
        · refine Or.inr ⟨u, List.mem_of_getElem? (i := k) ?_, howes⟩
          rw [List.getElem?_set_ne hik]
          exact hk

/- A task that is not done can take a step, whatever the others do. -/
theorem task_progress (hf : Below content file) (ht : t.Honest content) (hnot : ¬t.done) :
    ∃ a, t.Delivers content a ∧ ∃ r, t.step file a = some r := by
  obtain ⟨slices, pc, writes⟩ := t
  cases writes with
  | cons w writes =>
    obtain ⟨file₁, hrun, -⟩ := honest_run (ht.writes w List.mem_cons_self) hf
    refine ⟨.writeAt, trivial, ?_⟩
    cases pc with
    | failed => exact ht.pc.elim
    | idle | copying | checking =>
      simp only [Task.step, hrun]
      exact ⟨_, rfl⟩
  | nil =>
    cases pc with
    | idle =>
      cases slices with
      | nil => exact absurd ⟨rfl, rfl, rfl⟩ hnot
      | cons sl slices =>
        refine ⟨.answer (sl.bytes content), fun s hs => ?_, _, rfl⟩
        cases hs
        rfl
    | copying sl sw got rest =>
      cases rest with
      | nil => exact ⟨.eof, trivial, _, rfl⟩
      | cons x rest =>
        refine ⟨.read 1, trivial, ?_⟩
        simp only [Task.step, List.length_cons]
        rw [if_pos (by omega)]
        exact ⟨_, rfl⟩
    | checking sl got =>
      refine ⟨.check, trivial, ?_⟩
      simp only [Task.step]
      split <;> exact ⟨_, rfl⟩
    | failed => exact ht.pc.elim

theorem transfer_progress {c : Config (List UInt8) Task} (hc : Accounted content c)
    (hnot : ¬∀ t ∈ c.threads, t.done) :
    ∃ e c', Delivering content c e ∧ transfer.next c e = some c' := by
  push Not at hnot
  obtain ⟨t, hmem, hnot⟩ := hnot
  obtain ⟨i, hi⟩ := List.mem_iff_getElem?.mp hmem
  obtain ⟨a, hd, r, hr⟩ := task_progress hc.below (hc.honest t hmem) hnot
  refine ⟨.run i a, ⟨r.1, c.threads.set i r.2 ++ []⟩, fun u hu => ?_, ?_⟩
  · rw [hi] at hu
    cases hu
    exact hd
  · apply transfer.next_run_eq hi
    simp only [transfer, Program.ofStep, hr, Option.map_some]

/- Whatever has been transferred, the transfer can be brought to its end. -/
theorem transfer_completes (hfit : (content.length : ℤ) < 2 ^ 63) (n : ℕ)
    {c : Config (List UInt8) Task} (hc : Accounted content c) (hn : transferWork c ≤ n) :
    ∃ es c', transfer.machine.Guarded (Delivering content) c es ∧
      transfer.machine.exec c es = some c' ∧ ∀ t ∈ c'.threads, t.done := by
  induction n generalizing c with
  | zero =>
    by_cases hdone : ∀ t ∈ c.threads, t.done
    · exact ⟨[], c, trivial, rfl, hdone⟩
    · obtain ⟨e, c', hd, hnext⟩ := transfer_progress hc hdone
      have hless := (next_accounted hfit hc hd hnext).2
      omega
  | succ n ih =>
    by_cases hdone : ∀ t ∈ c.threads, t.done
    · exact ⟨[], c, trivial, rfl, hdone⟩
    · obtain ⟨e, c₁, hd, hnext⟩ := transfer_progress hc hdone
      obtain ⟨hc₁, hless⟩ := next_accounted hfit hc hd hnext
      obtain ⟨es, c', hg, hexec, hend⟩ := ih hc₁ (by omega)
      refine ⟨e :: es, c', ⟨hd, fun c₂ hc₂ => ?_⟩, ?_, hend⟩
      · have hsame : c₁ = c₂ := Option.some.inj (hnext.symm.trans hc₂)
        rw [← hsame]
        exact hg
      · rw [Machine.exec_cons_some]
        exact ⟨c₁, hnext, hexec⟩

theorem accounted_done {c : Config (List UInt8) Task} (hc : Accounted content c)
    (hdone : ∀ t ∈ c.threads, t.done) : c.shared = content := by
  apply List.ext_getElem?
  intro i
  rcases hc.below.2 i with heq | hzero
  · exact heq
  · have hlt : i < content.length := by
      rw [← hc.below.1]
      exact (List.getElem?_eq_some_iff.mp hzero).1
    obtain ⟨b, hb⟩ : ∃ b, content[i]? = some b := ⟨_, List.getElem?_eq_getElem hlt⟩
    by_cases hb0 : b = 0
    · rw [hzero, hb, hb0]
    · rcases hc.owed i b hb hb0 with heq | ⟨t, ht, howes⟩
      · exact heq
      · obtain ⟨hsl, hpc, hws⟩ := hdone t ht
        rcases howes with ⟨w, hw, -⟩ | ⟨_, _, _, _, hcopy, -⟩ | ⟨sl, hmem, -⟩
        · rw [hws] at hw
          cases hw
        · rw [hpc] at hcopy
          cases hcopy
        · rw [hsl] at hmem
          cases hmem

end Transfer

/-- An extent list a scan can return for a file with this content. -/
structure ScannedAs (content : List UInt8) (extents : List Extent) : Prop where
  runs : Span.Runs 0 content.length (extents.map Extent.span)
  holes : ∀ (i : ℕ) b, content[i]? = some b → b ≠ 0 → Span.Covers (extents.map Extent.span) i

theorem start_accounted (hfit : (content.length : ℤ) < 2 ^ 63) {slices : List PeerSlice}
    {groups : List (List PeerSlice)} (hgroups : groups.flatten.Perm slices)
    (hruns : Span.Runs 0 content.length (slices.map PeerSlice.span))
    (hcov : ∀ (i : ℕ) b, content[i]? = some b → b ≠ 0 →
      Span.Covers (slices.map PeerSlice.span) i) :
    Accounted content (startTransfer (Int64.ofNat content.length) groups) := by
  have hsize : (Int64.ofNat content.length).toInt.toNat = content.length := by
    rw [toInt_ofNat_of_fits hfit, Int.toNat_natCast]
  refine ⟨⟨?_, fun i => ?_⟩, fun t ht => ?_, fun i b hb hne => Or.inr ?_⟩
  · simp only [startTransfer, hsize, List.length_replicate]
  · simp only [startTransfer, hsize, List.getElem?_replicate]
    by_cases hi : i < content.length
    · exact Or.inr (if_pos hi)
    · left
      rw [if_neg hi, List.getElem?_eq_none (by omega)]
  · obtain ⟨group, hgroup, rfl⟩ := List.mem_map.mp ht
    refine ⟨fun sl hsl => ?_, trivial, fun w hw => (by cases hw), fun _ => rfl⟩
    have hmem : sl ∈ slices := hgroups.mem_iff.mp (List.mem_flatten.mpr ⟨group, hgroup, hsl⟩)
    exact hruns.inside sl.span (List.mem_map_of_mem hmem)
  · obtain ⟨s, hs, hin⟩ := hcov i b hb hne
    obtain ⟨sl, hsl, rfl⟩ := List.mem_map.mp hs
    obtain ⟨group, hgroup, hmem⟩ := List.mem_flatten.mp (hgroups.mem_iff.mpr hsl)
    exact ⟨_, List.mem_map_of_mem hgroup, Or.inr (Or.inr ⟨sl, hmem, hin⟩)⟩

/-- The slices planned for a file lie apart and inside it, none above the limit. However the workers
that fetch them interleave, each finishes, and in the end the file has the content of its peer. -/
theorem peer_transfer_lossless (content : List UInt8) (extents : List Extent) (gap limit : Int64)
    (fuel : ℕ) (hscan : ScannedAs content extents) (hlimit : 0 < limit)
    (hfit : (content.length : ℤ) + limit.toInt < 2 ^ 63) (hfuel : content.length < fuel) :
    ∃ slices groups, splitExtents fuel (coalesceExtents extents gap) limit = some slices ∧
      fetchTasks ⟨Int64.ofNat content.length, slices⟩ = some groups ∧ groups.flatten = slices ∧
      slices.Pairwise (fun a b => a.span.stop ≤ b.span.start) ∧
      (∀ sl ∈ slices, 0 ≤ sl.offset.toInt ∧ sl.offset.toInt + sl.length.toInt ≤ content.length ∧
        0 < sl.length.toInt ∧ sl.length.toInt ≤ limit.toInt) ∧
      ∀ (groups' : List (List PeerSlice)) es c, groups'.flatten.Perm slices →
        transfer.machine.Guarded (Delivering content)
          (startTransfer (Int64.ofNat content.length) groups') es →
        transfer.machine.exec (startTransfer (Int64.ofNat content.length) groups') es = some c →
        (∀ t ∈ c.threads, t.pc ≠ .failed) ∧
        ((∀ t ∈ c.threads, t.done) → c.shared = content) ∧
        ∃ es' c', transfer.machine.Guarded (Delivering content) c es' ∧
          transfer.machine.exec c es' = some c' ∧ (∀ t ∈ c'.threads, t.done) ∧
          c'.shared = content := by
  have hlimit' : 0 < limit.toInt := by
    rw [Int64.lt_iff_toInt_lt] at hlimit
    exact hlimit
  have hlen : (content.length : ℤ) < 2 ^ 63 := by omega
  obtain ⟨hcruns, hccov⟩ := coalesceExtents_runs gap hlen hscan.runs
  obtain ⟨slices, hslices, hruns, hcov, hmax⟩ :=
    splitExtents_runs hlimit' hfit (show (content.length : ℤ) < fuel by omega) le_rfl hcruns
  have hruns' : Span.Runs 0 (Int64.ofNat content.length).toInt (slices.map PeerSlice.span) := by
    rw [toInt_ofNat_of_fits hlen]
    exact hruns
  obtain ⟨groups, hgroups, hflat⟩ := fetchTasks_of_runs hruns'
  refine ⟨slices, groups, hslices, hgroups, hflat, List.pairwise_map.mp hruns.ordered, ?_, ?_⟩
  · intro sl hsl
    obtain ⟨h1, h2, h3⟩ := hruns.inside sl.span (List.mem_map_of_mem hsl)
    simp only [PeerSlice.span] at h1 h2 h3
    exact ⟨h1, h3, by omega, hmax sl hsl⟩
  · intro groups' es c hperm hg hexec
    have hstart := start_accounted hlen hperm hruns
      fun i b hb hne => hcov i (hccov i (hscan.holes i b hb hne))
    have hrun : ∀ {c₀ c₁ es}, Accounted content c₀ → transfer.machine.Guarded (Delivering content) c₀ es →
        transfer.machine.exec c₀ es = some c₁ → Accounted content c₁ :=
      transfer.machine.exec_invariant fun _ _ _ hs he h => (next_accounted hlen hs he h).1
    have hc : Accounted content c := hrun hstart hg hexec
    refine ⟨fun t ht hfail => ?_, accounted_done hc, ?_⟩
    · have hpc := (hc.honest t ht).pc
      rw [hfail] at hpc
      exact hpc
    · obtain ⟨es', c', hg', hexec', hdone⟩ := transfer_completes hlen _ hc le_rfl
      exact ⟨es', c', hg', hexec', hdone, accounted_done (hrun hc hg' hexec') hdone⟩

instance (content : List UInt8) (t : Task) : (a : TaskEvent) → Decidable (t.Delivers content a)
  | .answer stream => inferInstanceAs (Decidable (∀ sl ∈ t.slices.head?, stream = sl.bytes content))
  | .fail => inferInstanceAs (Decidable False)
  | .read _ | .writeAt | .eof | .check => inferInstanceAs (Decidable True)

instance (content : List UInt8) (c : Config (List UInt8) Task) :
    (e : PoolEvent Task TaskEvent Empty) → Decidable (Delivering content c e)
  | .run i a => inferInstanceAs (Decidable (∀ t ∈ c.threads[i]?, t.Delivers content a))
  | .start _ | .env _ => inferInstanceAs (Decidable True)

/- A sparse file of two runs, fetched by two streams that take turns. -/
def sparseFile : List UInt8 := [0, 0, 7, 0, 0, 0, 5, 9]

theorem sparseFile_scanned : ScannedAs sparseFile [⟨2, 1⟩, ⟨6, 2⟩] := by
  refine ⟨⟨by decide, by decide⟩, fun i b hb hne => ?_⟩
  have hcases : ∀ i < 8, sparseFile[i]? = some 0 ∨ i = 2 ∨ i = 6 ∨ i = 7 := by decide
  have hlt : i < sparseFile.length := (List.getElem?_eq_some_iff.mp hb).1
  rcases hcases i hlt with h | rfl | rfl | rfl
  · rw [hb] at h
    exact absurd (Option.some.inj h) hne
  · exact ⟨_, List.mem_cons_self, by decide, by decide⟩
  · exact ⟨_, List.mem_cons_of_mem _ List.mem_cons_self, by decide, by decide⟩
  · exact ⟨_, List.mem_cons_of_mem _ List.mem_cons_self, by decide, by decide⟩

def twoStreams : List (PoolEvent Task TaskEvent Empty) :=
  [.run 0 (.answer [7]), .run 1 (.answer [5, 9]), .run 1 (.read 1), .run 0 (.read 1), .run 0 .eof,
   .run 1 (.read 1), .run 1 .eof, .run 1 .writeAt, .run 0 .writeAt, .run 0 .check, .run 1 .check]

theorem peer_transfer_two_streams :
    ∃ c, transfer.machine.exec (startTransfer 8 [[⟨2, 1⟩], [⟨6, 2⟩]]) twoStreams = some c ∧
      (∀ t ∈ c.threads, t.done) ∧ c.shared = sparseFile := by
  obtain ⟨slices, groups, hslices, -, -, -, -, hall⟩ :=
    peer_transfer_lossless sparseFile [⟨2, 1⟩, ⟨6, 2⟩] 1 2 9 sparseFile_scanned (by decide) (by decide) (by decide)
  have hcut : splitExtents 9 (coalesceExtents [⟨2, 1⟩, ⟨6, 2⟩] 1) 2 = some [⟨2, 1⟩, ⟨6, 2⟩] := by decide
  rw [hcut] at hslices
  cases hslices
  have hrun : (transfer.machine.exec (startTransfer 8 [[⟨2, 1⟩], [⟨6, 2⟩]]) twoStreams).map
      (·.threads) = some [⟨[], .idle, []⟩, ⟨[], .idle, []⟩] := by decide +kernel
  obtain ⟨c, hexec, hthreads⟩ := Option.map_eq_some_iff.mp hrun
  have hdone : ∀ t ∈ c.threads, t.done := by
    rw [hthreads]
    intro t ht
    simp only [List.mem_cons, List.not_mem_nil, or_false, or_self] at ht
    subst ht
    exact ⟨rfl, rfl, rfl⟩
  have hg : transfer.machine.Guarded (Delivering sparseFile)
      (startTransfer 8 [[⟨2, 1⟩], [⟨6, 2⟩]]) twoStreams := by decide +kernel
  exact ⟨c, hexec, hdone, (hall [[⟨2, 1⟩], [⟨6, 2⟩]] twoStreams c (List.Perm.refl _) hg hexec).2.1 hdone⟩

end VkCocoon.Peer
