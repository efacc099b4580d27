import VkCocoon.Lib.Path
import VkCocoon.PeerTransfer

/-!
# What a peer may name

The serving node takes a snapshot id and a file name from a query (`handleSlice`), the
waking node takes file names, sizes and slices from a plan (`fetchFiles`). Both join the
names to a directory of their own once `isPlainName` accepts them; the slices are
checked against the size the plan gives. Strings are bytes, as in the source.
-/

namespace VkCocoon.Peer
open Lib

abbrev GoString := List UInt8

def unix : Alphabet UInt8 := ⟨0x2f, 0x2e, by decide⟩

def isPlainName (s : GoString) : Bool :=
  s != [] && s != [unix.dot] && s != [unix.dot, unix.dot] && s == Path.base unix s

/-- How `%s` and `%q` print a string. -/
structure Verbs where
  s : GoString → String
  q : GoString → String

/-! ### The serving side -/

structure PeerServer where
  storeDir : GoString

def snapshotDir (fmt : Verbs) (s : PeerServer) (id : GoString) : Except String GoString :=
  if !isPlainName id then .error ("invalid snapshot id " ++ fmt.q id)
  else .ok (Path.join unix [s.storeDir, id])

/-- The query of a slice; a number is `none` where `strconv.ParseInt` fails. -/
structure SliceQuery where
  id : GoString
  file : GoString
  offset : Option Int64
  length : Option Int64

inductive SliceReply where
  | refused (status : ℕ) (text : String)
  /-- the file is open and `length` bytes from `offset` on are streamed -/
  | stream (path : GoString) (offset length : Int64)

/-- `gate` says whether a stream is free and `openFile` how `os.Open` fails. -/
def handleSlice (fmt : Verbs) (s : PeerServer) (gate : Bool) (openFile : GoString → Option String)
    (q : SliceQuery) : SliceReply :=
  match q.offset, q.length with
  | some offset, some length =>
    if q.id = [] ∨ q.file = [] ∨ offset < 0 ∨ length ≤ 0 then
      .refused 400 "id, file, offset, length are required"
    else
      match snapshotDir fmt s q.id with
      | .error err => .refused 400 err
      | .ok dir =>
        if !isPlainName q.file then .refused 400 "file must be a plain name"
        else if !gate then .refused 503 "slice streams saturated"
        else
          match openFile (Path.join unix [dir, q.file]) with
          | some err => .refused 404 err
          | none => .stream (Path.join unix [dir, q.file]) offset length
  | _, _ => .refused 400 "id, file, offset, length are required"

/-! ### The waking side -/

/-- A `peerFile` of the plan. -/
structure NamedFile extends PeerFile where
  name : GoString

/-- A file that was created and truncated, with the groups of slices its streams take. -/
structure StagedFile where
  path : GoString
  size : Int64
  groups : List (List PeerSlice)

/-- How `os.OpenFile`, told what was created before, and `Truncate` fail. -/
structure Disk where
  openFile : List StagedFile → GoString → Option String
  truncate : GoString → Int64 → Option String

def boundsError (fmt : Verbs) (pf : NamedFile) : String :=
  match pf.slices.find? (·.outOfBounds pf.size) with
  | some sl =>
    "peer plan slice " ++ fmt.s pf.name ++ "@" ++ toString sl.offset.toInt ++ "+" ++
      toString sl.length.toInt ++ " out of bounds (size " ++ toString pf.size.toInt ++ ")"
  | none => ""

/-- One pass of the loop of `fetchFiles` over the files of the plan. -/
def stageFile (fmt : Verbs) (disk : Disk) (dir : GoString) (staged : List StagedFile)
    (pf : NamedFile) : Except String StagedFile :=
  if !isPlainName pf.name then .error ("peer plan names non-plain file " ++ fmt.q pf.name)
  else
    match fetchTasks pf.toPeerFile with
    | none => .error (boundsError fmt pf)
    | some groups =>
      match disk.openFile staged (Path.join unix [dir, pf.name]) with
      | some err => .error err
      | none =>
        match disk.truncate (Path.join unix [dir, pf.name]) pf.size with
        | some err => .error ("truncate " ++ fmt.s pf.name ++ ": " ++ err)
        | none => .ok ⟨Path.join unix [dir, pf.name], pf.size, groups⟩

def stageFiles (fmt : Verbs) (disk : Disk) (dir : GoString) :
    List StagedFile → List NamedFile → Except String (List StagedFile)
  | staged, [] => .ok staged
  | staged, pf :: files =>
    match stageFile fmt disk dir staged pf with
    | .error err => .error err
    | .ok f => stageFiles fmt disk dir (staged ++ [f]) files

/-- `fetchFiles` up to the start of the transfers. -/
def fetchFiles (fmt : Verbs) (disk : Disk) (dir : GoString) (files : List NamedFile) :
    Except String (List StagedFile) :=
  stageFiles fmt disk dir [] files

variable {fmt : Verbs} {disk : Disk} {dir path s : GoString} {staged : List StagedFile}
  {files : List NamedFile} {pf : NamedFile} {f : StagedFile} {server : PeerServer}

/-- What is staged for a file of an accepted plan. -/
structure Stages (dir : GoString) (pf : NamedFile) (f : StagedFile) : Prop where
  plain : isPlainName pf.name = true
  tasks : fetchTasks pf.toPeerFile = some f.groups
  size : f.size = pf.size
  path : f.path = Path.join unix [dir, pf.name]

theorem stageFile_ok (h : stageFile fmt disk dir staged pf = .ok f) : Stages dir pf f := by
  unfold stageFile at h
  split at h
  · cases h
  next hname =>
    cases htasks : fetchTasks pf.toPeerFile with
    | none =>
      rw [htasks] at h
      cases h
    | some groups =>
      rw [htasks] at h
      simp only at h
      split at h
      · cases h
      · split at h
        · cases h
        · cases h
          exact ⟨by simpa using hname, htasks, rfl, rfl⟩

/- The loop keeps what it staged before and adds one file for each file of the plan. -/
theorem stageFiles_ok {staged' : List StagedFile}
    (h : stageFiles fmt disk dir staged files = .ok staged') :
    (∀ f ∈ staged, f ∈ staged') ∧ (∀ pf ∈ files, ∃ f ∈ staged', Stages dir pf f) ∧
      ∀ f ∈ staged', f ∈ staged ∨ ∃ pf ∈ files, Stages dir pf f := by
  induction files generalizing staged with
  | nil =>
    cases h
    exact ⟨fun f hf => hf, fun pf hpf => (by cases hpf), fun f hf => Or.inl hf⟩
  | cons pf files ih =>
    simp only [stageFiles] at h
    split at h
    · cases h
    next f hf =>
      have hstages := stageFile_ok hf
      obtain ⟨hkeep, hplan, hback⟩ := ih h
      have hf' : f ∈ staged' := hkeep f (List.mem_append_right _ (List.mem_singleton.mpr rfl))
      refine ⟨fun g hg => hkeep g (List.mem_append_left _ hg), ?_, ?_⟩
      · intro pf' hpf'
        rcases List.mem_cons.mp hpf' with rfl | hpf'
        · exact ⟨f, hf', hstages⟩
        · exact hplan pf' hpf'
      · intro g hg
        rcases hback g hg with hg | ⟨pf', hpf', hg⟩
        · rcases List.mem_append.mp hg with hg | hg
          · exact Or.inl hg
          · rw [List.mem_singleton.mp hg]
            exact Or.inr ⟨pf, List.mem_cons_self, hstages⟩
        · exact Or.inr ⟨pf', List.mem_cons_of_mem _ hpf', hg⟩

theorem fetchFiles_ok (h : fetchFiles fmt disk dir files = .ok staged) :
    (∀ pf ∈ files, ∃ f ∈ staged, Stages dir pf f) ∧ ∀ f ∈ staged, ∃ pf ∈ files, Stages dir pf f := by
  obtain ⟨-, hplan, hback⟩ := stageFiles_ok h
  exact ⟨hplan, fun f hf => (hback f hf).resolve_left List.not_mem_nil⟩

/-! ### Plain names -/

/- The one name that is accepted and is none. -/
theorem isPlainName_iff : isPlainName s = true ↔ s = [unix.slash] ∨ Path.IsName unix s := by
  have hparts : isPlainName s = true ↔
      ((s ≠ [] ∧ s ≠ [unix.dot]) ∧ s ≠ [unix.dot, unix.dot]) ∧ s = Path.base unix s := by
    simp only [isPlainName, Bool.and_eq_true, bne_iff_ne, beq_iff_eq]
  rw [hparts]
  constructor
  · rintro ⟨⟨⟨hnil, hdot⟩, hdotdot⟩, hbase⟩
    by_cases hs : s = [unix.slash]
    · exact Or.inl hs
    · exact Or.inr ⟨hnil, Path.noSlash_of_base hbase.symm hs, hdot, hdotdot⟩
  · rintro (rfl | hs)
    · decide
    · exact ⟨⟨⟨hs.ne_nil, hs.ne_dot⟩, hs.ne_dotdot⟩, (Path.base_name hs).symm⟩

theorem isName_of_plain (h : isPlainName s = true) (hs : s ≠ [unix.slash]) : Path.IsName unix s :=
  (isPlainName_iff.mp h).resolve_left hs

theorem child_join_iff (hdir : Path.IsDir unix dir) (h : isPlainName s = true) :
    Path.Child unix dir (Path.join unix [dir, s]) ↔ s ≠ [unix.slash] := by
  constructor
  · rintro hchild rfl
    rw [Path.join_slash hdir] at hchild
    exact Path.not_child_self hchild
  · intro hs
    exact Path.child_join hdir (isName_of_plain h hs)

theorem snapshotDir_ok {id : GoString} (h : snapshotDir fmt server id = .ok path) :
    isPlainName id = true ∧ path = Path.join unix [server.storeDir, id] := by
  unfold snapshotDir at h
  split at h
  · cases h
  next hid =>
    cases h
    exact ⟨by simpa using hid, rfl⟩

theorem handleSlice_stream {gate : Bool} {openFile : GoString → Option String} {q : SliceQuery}
    {offset length : Int64} (h : handleSlice fmt server gate openFile q = .stream path offset length) :
    isPlainName q.file = true ∧ ∃ own, snapshotDir fmt server q.id = .ok own ∧
      path = Path.join unix [own, q.file] := by
  unfold handleSlice at h
  split at h
  · split at h
    · cases h
    · split at h
      · cases h
      next own hown =>
        split at h
        · cases h
        next hfile =>
          split at h
          · cases h
          · split at h
            · cases h
            · cases h
              exact ⟨by simpa using hfile, own, hown, rfl⟩
  · cases h

theorem served_file_iff {gate : Bool} {openFile : GoString → Option String} {q : SliceQuery}
    {offset length : Int64} (hdir : Path.IsDir unix server.storeDir)
    (h : handleSlice fmt server gate openFile q = .stream path offset length) :
    (∃ own, snapshotDir fmt server q.id = .ok own ∧ Path.Child unix server.storeDir own ∧
      Path.Child unix own path) ↔ q.id ≠ [unix.slash] ∧ q.file ≠ [unix.slash] := by
  obtain ⟨hfile, own, hown, hpath⟩ := handleSlice_stream h
  obtain ⟨hid, hjoin⟩ := snapshotDir_ok hown
  constructor
  · rintro ⟨own', hown', hchild, hfileChild⟩
    rw [hown] at hown'
    cases hown'
    have hne : q.id ≠ [unix.slash] := (child_join_iff hdir hid).mp (hjoin ▸ hchild)
    have hdir' : Path.IsDir unix own := hjoin ▸ Path.join_isDir hdir (isName_of_plain hid hne)
    exact ⟨hne, (child_join_iff hdir' hfile).mp (hpath ▸ hfileChild)⟩
  · rintro ⟨hne, hne'⟩
    have hdir' : Path.IsDir unix own := hjoin ▸ Path.join_isDir hdir (isName_of_plain hid hne)
    refine ⟨own, hown, ?_, ?_⟩
    · rw [hjoin]
      exact (child_join_iff hdir hid).mpr hne
    · rw [hpath]
      exact (child_join_iff hdir' hfile).mpr hne'

theorem staged_files_iff (hdir : Path.IsDir unix dir)
    (h : fetchFiles fmt disk dir files = .ok staged) :
    (∀ f ∈ staged, Path.Child unix dir f.path) ↔ ∀ pf ∈ files, pf.name ≠ [unix.slash] := by
  obtain ⟨hplan, hback⟩ := fetchFiles_ok h
  constructor
  · intro hchild pf hpf
    obtain ⟨f, hf, hs⟩ := hplan pf hpf
    exact (child_join_iff hdir hs.plain).mp (hs.path ▸ hchild f hf)
  · intro hne f hf
    obtain ⟨pf, hpf, hs⟩ := hback f hf
    rw [hs.path]
    exact (child_join_iff hdir hs.plain).mpr (hne pf hpf)

/-- An accepted name that is not the separator is joined one level below its directory: a snapshot
has a directory of its own, and what is served or staged lies directly in it. -/
theorem plain_names_one_level (dir : GoString) (hdir : Path.IsDir unix dir) :
    (∀ s, isPlainName s = true → (Path.Child unix dir (Path.join unix [dir, s]) ∧
      Path.join unix [dir, s] ≠ dir ↔ s ≠ [unix.slash])) ∧
    (∀ fmt id own, snapshotDir fmt ⟨dir⟩ id = .ok own →
      (Path.Child unix dir own ↔ id ≠ [unix.slash])) ∧
    (∀ fmt gate openFile q path offset length,
      handleSlice fmt ⟨dir⟩ gate openFile q = .stream path offset length →
      ((∃ own, snapshotDir fmt ⟨dir⟩ q.id = .ok own ∧ Path.Child unix dir own ∧
        Path.Child unix own path) ↔ q.id ≠ [unix.slash] ∧ q.file ≠ [unix.slash])) ∧
    ∀ fmt disk files staged, fetchFiles fmt disk dir files = .ok staged →
      ((∀ f ∈ staged, Path.Child unix dir f.path) ↔ ∀ pf ∈ files, pf.name ≠ [unix.slash]) := by
  refine ⟨fun s hs => ?_, fun fmt id own h => ?_, fun fmt gate openFile q path offset length h => ?_,
    fun fmt disk files staged h => ?_⟩
  · rw [← child_join_iff hdir hs]
    refine ⟨And.left, fun hchild => ⟨hchild, fun heq => ?_⟩⟩
    rw [heq] at hchild
    exact Path.not_child_self hchild
  · obtain ⟨hid, hjoin⟩ := snapshotDir_ok h
    rw [hjoin]
    exact child_join_iff hdir hid
  · exact served_file_iff hdir h
  · exact staged_files_iff hdir h

/- `/s` and `a` -/
theorem plain_name_below_store :
    Path.Child unix [0x2f, 0x73] (Path.join unix [[0x2f, 0x73], [0x61]]) := by
  have hdir : Path.IsDir unix [0x2f, 0x73] := ⟨rfl, by decide⟩
  have hplain : isPlainName [0x61] = true := by decide
  exact (((plain_names_one_level [0x2f, 0x73] hdir).1 [0x61] hplain).mpr (by decide)).1

/- The separator is accepted, and joined to a directory it is the directory. -/
theorem separator_is_plain : ¬ ∀ s dir, isPlainName s = true → Path.IsDir unix dir →
    Path.Child unix dir (Path.join unix [dir, s]) ∧ Path.join unix [dir, s] ≠ dir := by
  intro h
  exact (h [0x2f] [0x2f, 0x73] (by decide) ⟨rfl, by decide⟩).2 (by decide)

/-! ### Slices inside their file -/

def PeerSlice.Within (size : ℤ) (sl : PeerSlice) : Prop :=
  0 ≤ sl.offset.toInt ∧ 0 < sl.length.toInt ∧ sl.offset.toInt + sl.length.toInt ≤ size

def WriteCall.Within (size : ℤ) (w : WriteCall) : Prop :=
  0 ≤ w.off.toInt ∧ w.off.toInt + w.data.length ≤ size

/-- What is in the buffer and still to come ends inside the file. -/
def TaskPC.Within (size : ℤ) : TaskPC → Prop
  | .copying _ sw _ rest =>
    sw.buf.length < sw.cap ∧ 0 ≤ sw.off.toInt ∧ sw.off.toInt + sw.buf.length + rest.length ≤ size
  | .idle | .checking _ _ | .failed => True

structure Task.Within (size : ℤ) (t : Task) : Prop where
  slices : ∀ sl ∈ t.slices, sl.Within size
  pc : t.pc.Within size
  writes : ∀ w ∈ t.writes, w.Within size

/-- The stream that answers the request for a slice has the length of the slice. -/
def HonestLength (c : Config (List UInt8) Task) : PoolEvent Task TaskEvent Empty → Prop
  | .run i (.answer stream) =>
    ∀ t ∈ c.threads[i]?, ∀ sl ∈ t.slices.head?, (stream.length : ℤ) = sl.length.toInt
  | _ => True

/- The check of the source is right about a slice whose end is an `int64`. -/
theorem within_of_not_outOfBounds {sl : PeerSlice} {size : Int64} (h : sl.outOfBounds size = false) :
    sl.Within size.toInt ↔ sl.offset.toInt + sl.length.toInt < 2 ^ 63 := by
  have hsize := size.toInt_lt
  have hzero : (0 : Int64).toInt = 0 := rfl
  simp only [PeerSlice.outOfBounds, Int64.lt_iff_toInt_lt, Int64.le_iff_toInt_le, hzero,
    Bool.or_eq_false_iff, decide_eq_false_iff_not] at h
  obtain ⟨⟨hoff, hlen⟩, hsum⟩ := h
  constructor
  · rintro ⟨-, -, hle⟩
    omega
  · intro hfit
    rw [toInt_add_of_fits (by omega) hfit] at hsum
    exact ⟨by omega, by omega, by omega⟩

theorem not_outOfBounds_of_fetchTasks {pf : PeerFile} {groups : List (List PeerSlice)}
    (h : fetchTasks pf = some groups) : ∀ sl ∈ pf.slices, sl.outOfBounds pf.size = false := by
  unfold fetchTasks at h
  split at h
  · cases h
  next hany =>
    intro sl hsl
    rw [Bool.not_eq_true, List.any_eq_false] at hany
    simpa using hany sl hsl

theorem flatten_of_fetchTasks {pf : PeerFile} {groups : List (List PeerSlice)}
    (h : fetchTasks pf = some groups) : groups.flatten = pf.slices := by
  unfold fetchTasks at h
  split at h
  · cases h
  · cases h
    exact chunk_flatten (by omega) _ _ le_rfl

variable {size : ℤ} {file file' : List UInt8} {t t' : Task}

theorem Writes.within {ws : List WriteCall} {data : List UInt8} {off : Int64}
    (h : Writes ws data off) (hsize : size < 2 ^ 63) (hoff : 0 ≤ off.toInt)
    (hend : off.toInt + data.length ≤ size) : ∀ w ∈ ws, w.Within size := by
  intro w hw
  obtain ⟨a, hwoff, hle, -⟩ := h.exact w hw
  have hsmall : (Int64.ofNat a).toInt = a := toInt_ofNat_of_fits (by omega)
  have hsum : w.off.toInt = off.toInt + a := by
    rw [hwoff, toInt_add_of_fits (by omega) (by omega), hsmall]
  exact ⟨by omega, by omega⟩

/- A write inside the file leaves its length alone. -/
theorem WriteCall.Within.run_length {w : WriteCall} (hw : w.Within size)
    (hfile : (file.length : ℤ) = size) (h : w.run file = some file') : file'.length = file.length := by
  obtain ⟨hoff, hend⟩ := hw
  unfold WriteCall.run at h
  split at h
  · cases h
  · cases h
    simp only [List.length_append, List.length_take, List.length_replicate, List.length_drop]
    omega

/- What `Write` and `Flush` leave to be written or in the buffer. -/
theorem Took.within {sw sw' : SectionWriter} {p : List UInt8} {ws : List WriteCall}
    (h : SectionWriter.Took sw p sw' ws) (hsize : size < 2 ^ 63) (hoff : 0 ≤ sw.off.toInt)
    (hend : sw.off.toInt + sw.buf.length + p.length ≤ size) :
    (∀ w ∈ ws, w.Within size) ∧ 0 ≤ sw'.off.toInt ∧
      sw'.off.toInt + sw'.buf.length = sw.off.toInt + sw.buf.length + p.length := by
  obtain ⟨out, hbytes, hoff', hws⟩ := h.bytes
  have hlen : sw.buf.length + p.length = out.length + sw'.buf.length := by
    have hcong := congrArg List.length hbytes
    simpa only [List.length_append] using hcong
  have hsmall : (Int64.ofNat out.length).toInt = out.length := toInt_ofNat_of_fits (by omega)
  have hsum : sw'.off.toInt = sw.off.toInt + out.length := by
    rw [hoff', toInt_add_of_fits (by omega) (by omega), hsmall]
  exact ⟨hws.within hsize hoff (by omega), by omega, by omega⟩

theorem step_within {a : TaskEvent} (hsize : size < 2 ^ 63) (ht : t.Within size)
    (hfile : (file.length : ℤ) = max size 0)
    (ha : ∀ stream, a = .answer stream → ∀ sl ∈ t.slices.head?, (stream.length : ℤ) = sl.length.toInt)
    (h : t.step file a = some (file', t')) : file'.length = file.length ∧ t'.Within size := by
  obtain ⟨slices, pc, writes⟩ := t
  obtain ⟨hslices, hpc, hwrites⟩ := ht
  cases a with
  | answer stream =>
    cases pc <;> cases slices <;> simp only [Task.step, Option.some.injEq, Prod.mk.injEq, reduceCtorEq] at h
    case idle.cons sl slices =>
      obtain ⟨rfl, rfl⟩ := h
      obtain ⟨hoff, hlen, hend⟩ := hslices sl List.mem_cons_self
      have hstream : (stream.length : ℤ) = sl.length.toInt := ha stream rfl sl rfl
      refine ⟨rfl, fun x hx => hslices x (List.mem_cons_of_mem _ hx), ⟨?_, hoff, ?_⟩, hwrites⟩
      · simp only [List.length_nil]
        decide
      · simp only [List.length_nil]
        omega
  | read n =>
    cases pc <;> cases writes <;> simp only [Task.step, reduceCtorEq] at h
    case copying.nil sl sw got rest =>
      split at h
      next hn =>
        cases h
        obtain ⟨hroom, hoff, hend⟩ := hpc
        have htook := sw.write_took (rest.take n) hroom
        have htake : (rest.take n).length = n := by
          rw [List.length_take]
          omega
        obtain ⟨hws, hoff', hsum⟩ := Took.within htook hsize hoff (by omega)
        refine ⟨rfl, hslices, ⟨htook.room, hoff', ?_⟩, hws⟩
        rw [List.length_drop]
        omega
      next => cases h
  | writeAt =>
    cases writes with
    | nil => cases pc <;> simp only [Task.step, reduceCtorEq] at h
    | cons w writes =>
      have hw := hwrites w List.mem_cons_self
      have hrest : ∀ x ∈ writes, x.Within size := fun x hx => hwrites x (List.mem_cons_of_mem _ hx)
      have hpos : 0 ≤ size := by
        obtain ⟨h0, h1⟩ := hw
        omega
      -- the call goes through, or the task gives up with its calls still unmade
      have hcases : (∃ f, w.run file = some f ∧ file' = f ∧ t' = ⟨slices, pc, writes⟩) ∨
          (file' = file ∧ t' = ⟨slices, .failed, w :: writes⟩) := by
        cases pc <;> simp only [Task.step, reduceCtorEq] at h <;>
        · cases hrun : w.run file with
          | none =>
            rw [hrun] at h
            cases h
            exact Or.inr ⟨rfl, rfl⟩
          | some f =>
            rw [hrun] at h
            cases h
            exact Or.inl ⟨_, rfl, rfl, rfl⟩
      rcases hcases with ⟨f, hrun, rfl, rfl⟩ | ⟨rfl, rfl⟩
      · exact ⟨hw.run_length (by omega) hrun, hslices, hpc, hrest⟩
      · exact ⟨rfl, hslices, trivial, hwrites⟩
  | eof =>
    cases pc <;> cases writes <;> simp only [Task.step, reduceCtorEq] at h
    case copying.nil sl sw got rest =>
      cases rest with
      | nil =>
        cases h
        obtain ⟨hroom, hoff, hend⟩ := hpc
        rw [List.length_nil] at hend
        exact ⟨rfl, hslices, trivial, (sw.flush_writes).within hsize hoff (by omega)⟩
      | cons b rest => cases h
  | check =>
    cases pc <;> cases writes <;> simp only [Task.step, reduceCtorEq] at h
    case checking.nil sl got =>
      split at h <;> cases h <;> exact ⟨rfl, hslices, trivial, hwrites⟩
  | fail =>
    simp only [Task.step] at h
    split at h
    · cases h
    · cases h
      exact ⟨rfl, hslices, trivial, hwrites⟩

/-- The writes of all tasks end inside the file, which keeps its size. -/
structure Contained (size : ℤ) (c : Config (List UInt8) Task) : Prop where
  length : (c.shared.length : ℤ) = max size 0
  tasks : ∀ t ∈ c.threads, t.Within size

theorem next_contained (hsize : size < 2 ^ 63) (c : Config (List UInt8) Task)
    (e : PoolEvent Task TaskEvent Empty) (c' : Config (List UInt8) Task) (hc : Contained size c)
    (he : HonestLength c e) (h : transfer.next c e = some c') : Contained size c' := by
  cases e with
  | start t => cases h
  | env o => cases o
  | run i a =>
    obtain ⟨t, file', t', ht, hs, rfl⟩ := Program.ofStep_run h
    have hmem : t ∈ c.threads := List.mem_of_getElem? ht
    have ha : ∀ stream, a = .answer stream → ∀ sl ∈ t.slices.head?,
        (stream.length : ℤ) = sl.length.toInt := by
      rintro stream rfl
      exact he t ht
    obtain ⟨hlen, hwithin⟩ := step_within hsize (hc.tasks t hmem) hc.length ha hs
    refine ⟨by rw [hlen]; exact hc.length, fun u hu => ?_⟩
    rcases List.mem_or_eq_of_mem_set hu with hu | rfl
    · exact hc.tasks u hu
    · exact hwithin

theorem start_contained {size : Int64} {groups : List (List PeerSlice)}
    (h : ∀ sl ∈ groups.flatten, sl.Within size.toInt) :
    Contained size.toInt (startTransfer size groups) := by
  constructor
  · simp only [startTransfer, List.length_replicate]
    omega
  · intro t ht
    obtain ⟨slices, hslices, rfl⟩ := List.mem_map.mp ht
    refine ⟨fun sl hsl => h sl (List.mem_flatten.mpr ⟨slices, hslices, hsl⟩), trivial, fun w hw => ?_⟩
    cases hw

/-- A plan that is accepted stays inside its files, and so does every transfer of it whose streams
have the length of their slices, exactly when no slice ends beyond the range of an `int64`. -/
theorem accepted_plan_within_iff (fmt : Verbs) (disk : Disk) (dir : GoString) (files : List NamedFile)
    (staged : List StagedFile) (h : fetchFiles fmt disk dir files = .ok staged) :
    ((∀ pf ∈ files, ∀ sl ∈ pf.slices, 0 ≤ sl.offset.toInt ∧ 0 < sl.length.toInt ∧
        sl.offset.toInt + sl.length.toInt ≤ pf.size.toInt) ∧
      ∀ f ∈ staged, ∀ es c,
        transfer.machine.Guarded HonestLength (startTransfer f.size f.groups) es →
        transfer.machine.exec (startTransfer f.size f.groups) es = some c →
        c.shared.length = f.size.toInt.toNat ∧ ∀ t ∈ c.threads, ∀ w ∈ t.writes,
          0 ≤ w.off.toInt ∧ w.off.toInt + w.data.length ≤ f.size.toInt) ↔
    ∀ pf ∈ files, ∀ sl ∈ pf.slices, sl.offset.toInt + sl.length.toInt < 2 ^ 63 := by
  obtain ⟨hplan, hback⟩ := fetchFiles_ok h
  constructor
  · rintro ⟨hbounds, -⟩ pf hpf sl hsl
    have hend := (hbounds pf hpf sl hsl).2.2
    have hsize := pf.size.toInt_lt
    omega
  · intro hfit
    have hbounds : ∀ pf ∈ files, ∀ sl ∈ pf.slices, sl.Within pf.size.toInt := by
      intro pf hpf sl hsl
      obtain ⟨f, -, hs⟩ := hplan pf hpf
      exact (within_of_not_outOfBounds (not_outOfBounds_of_fetchTasks hs.tasks sl hsl)).mpr
        (hfit pf hpf sl hsl)
    refine ⟨hbounds, fun f hf es c hg hexec => ?_⟩
    obtain ⟨pf, hpf, hs⟩ := hback f hf
    have hstart : Contained f.size.toInt (startTransfer f.size f.groups) := by
      apply start_contained
      rw [flatten_of_fetchTasks hs.tasks, hs.size]
      exact hbounds pf hpf
    have hc : Contained f.size.toInt c :=
      transfer.machine.exec_invariant (next_contained f.size.toInt_lt) hstart hg hexec
    refine ⟨?_, fun t ht w hw => (hc.tasks t ht).writes w hw⟩
    have hlen := hc.length
    omega

def noVerbs : Verbs := ⟨fun _ => "", fun _ => ""⟩
def blankDisk : Disk := ⟨fun _ _ => none, fun _ _ => none⟩

instance (c : Config (List UInt8) Task) :
    (e : PoolEvent Task TaskEvent Empty) → Decidable (HonestLength c e)
  | .run i (.answer stream) => inferInstanceAs (Decidable
      (∀ t ∈ c.threads[i]?, ∀ sl ∈ t.slices.head?, (stream.length : ℤ) = sl.length.toInt))
  | .run _ (.read _) | .run _ .writeAt | .run _ .eof | .run _ .check | .run _ .fail | .start _ | .env _ =>
    .isTrue trivial

/- A file of eight bytes with a slice at its end, fetched in two reads. -/
def lastSlice : List (PoolEvent Task TaskEvent Empty) :=
  [.run 0 (.answer [5, 9]), .run 0 (.read 1), .run 0 (.read 1), .run 0 .eof, .run 0 .writeAt, .run 0 .check]

theorem accepted_plan_of_one_file :
    ∃ c, transfer.machine.exec (startTransfer 8 [[⟨6, 2⟩]]) lastSlice = some c ∧ c.shared.length = 8 := by
  have hok : fetchFiles noVerbs blankDisk [0x2f] [⟨⟨8, [⟨6, 2⟩]⟩, [0x61]⟩] =
      .ok [⟨[0x2f, 0x61], 8, [[⟨6, 2⟩]]⟩] := by rfl
  have hfit : ∀ pf ∈ [(⟨⟨8, [⟨6, 2⟩]⟩, [0x61]⟩ : NamedFile)], ∀ sl ∈ pf.slices,
      sl.offset.toInt + sl.length.toInt < 2 ^ 63 := by decide
  have hrun : (transfer.machine.exec (startTransfer 8 [[⟨6, 2⟩]]) lastSlice).isSome = true := by
    decide +kernel
  obtain ⟨c, hexec⟩ := Option.isSome_iff_exists.mp hrun
  exact ⟨c, hexec, (((accepted_plan_within_iff _ _ _ _ _ hok).mpr hfit).2 _ List.mem_cons_self lastSlice c
    (by decide +kernel) hexec).1⟩

/- The sum wraps, and the check lets a slice at the last offset into an empty file. -/
theorem wrapped_slice_is_accepted : ¬ ∀ fmt disk dir files staged,
    fetchFiles fmt disk dir files = .ok staged →
    ∀ pf ∈ files, ∀ sl ∈ pf.slices, 0 ≤ sl.offset.toInt ∧ 0 < sl.length.toInt ∧
      sl.offset.toInt + sl.length.toInt ≤ pf.size.toInt := by
  intro h
  have hok : fetchFiles noVerbs blankDisk [0x2f] [⟨⟨0, [⟨9223372036854775807, 1⟩]⟩, [0x61]⟩] =
      .ok [⟨[0x2f, 0x61], 0, [[⟨9223372036854775807, 1⟩]]⟩] := by rfl
  have hbad := h _ _ _ _ _ hok _ List.mem_cons_self _ List.mem_cons_self
  exact absurd hbad.2.2 (by decide)

end VkCocoon.Peer
