import VkCocoon.Lib.Proc
import VkCocoon.PeerFetch
import VkCocoon.WakeSource

/-!
# Restoring a snapshot from a peer

`PeerRestorer.Restore` in full: the gate, the plan, a staging directory of its own, the
files, the envelope, and what is undone when one of them fails. It is written over the
calls it makes to the system and the peer. `Os` says what these do to the file system;
the peer and the link are told by `Surroundings`.
-/

namespace VkCocoon.Peer
open Lib

def utf8 (s : String) : GoString := s.toUTF8.toList

/-- What comes of the request for the plan. -/
inductive PlanAnswer where
  | failed (err : String)
  /-- another status than 200, with the first bytes of the body -/
  | status (line msg : String)
  | body (plan : Except String PeerPlan)

inductive OsCall where
  | acquire
  | release
  | get (baseURL name : String)
  | mkdirAll (path : GoString)
  | mkdirTemp (dir pattern : GoString)
  /-- with `O_WRONLY|O_CREATE|O_EXCL` -/
  | openFile (path : GoString)
  | truncate (path : GoString) (size : Int64)
  /-- `eg.Wait` for the tasks of all staged files -/
  | fetch (staged : List StagedFile)
  | writeFile (path : GoString) (data : List UInt8)
  | removeAll (path : GoString)

abbrev OsAns : OsCall → Type
  | .get _ _ => PlanAnswer
  | .mkdirTemp _ _ => Except String GoString
  | .release => Unit
  | .acquire | .mkdirAll _ | .openFile _ | .truncate _ _ | .fetch _ | .writeFile _ _ | .removeAll _ =>
    Option String

abbrev OsCode := Proc OsCall OsAns

def sys (q : OsCall) : OsCode (OsAns q) := Proc.ask q

def doGet : PlanAnswer → Except String (Except String PeerPlan)
  | .failed err => .error err
  | .status line msg => .error (line ++ ": " ++ msg)
  | .body plan => .ok plan

def fetchPlan (baseURL name : String) : OsCode (Except String PeerPlan) := do
  match doGet (← sys (.get baseURL name)) with
  | .error err => return .error ("peer plan: " ++ err)
  | .ok (.error err) => return .error ("peer plan: decode: " ++ err)
  | .ok (.ok plan) => return .ok plan

/-- A rune that is not kept becomes an underscore, also one that stands for an invalid byte. -/
def sanitizeRune (r : Char) : UInt8 :=
  if ('a' ≤ r ∧ r ≤ 'z') ∨ ('A' ≤ r ∧ r ≤ 'Z') ∨ ('0' ≤ r ∧ r ≤ '9') ∨ r = '-' ∨ r = '.' then
    UInt8.ofNat r.toNat
  else 0x5f

def sanitizeStagingPrefix (name : String) : GoString := name.toList.map sanitizeRune

def newStagingDir (root : GoString) (localName : String) : OsCode (Except String GoString) := do
  if root = [] then return .error "staging root is not configured"
  else
    match ← sys (.mkdirAll root) with
    | some err => return .error ("create staging root: " ++ err)
    | none =>
      match ← sys (.mkdirTemp root (sanitizeStagingPrefix localName ++ [0x2d])) with
      | .error err => return .error ("create staging dir: " ++ err)
      | .ok dir => return .ok dir

namespace PeerRestorer

/-- `fetchFiles` up to the start of the tasks, as the calls it makes. -/
def stageFiles (fmt : Verbs) (dir : GoString) :
    List StagedFile → List NamedFile → OsCode (Except String (List StagedFile))
  | staged, [] => return .ok staged
  | staged, pf :: files => do
    if !isPlainName pf.name then return .error ("peer plan names non-plain file " ++ fmt.q pf.name)
    else
      match fetchTasks pf.toPeerFile with
      | none => return .error (boundsError fmt pf)
      | some groups =>
        match ← sys (.openFile (Path.join unix [dir, pf.name])) with
        | some err => return .error err
        | none =>
          match ← sys (.truncate (Path.join unix [dir, pf.name]) pf.size) with
          | some err => return .error ("truncate " ++ fmt.s pf.name ++ ": " ++ err)
          | none => stageFiles fmt dir (staged ++ [⟨Path.join unix [dir, pf.name], pf.size, groups⟩]) files

def fetchFiles (fmt : Verbs) (dir : GoString) (plan : PeerPlan) : OsCode (Option String) := do
  match ← stageFiles fmt dir [] plan.files with
  | .error err => return some err
  | .ok staged => sys (.fetch staged)

end PeerRestorer

/-- `snapshot.MarshalEnvelope` -/
abbrev Marshal := SnapshotConfig → String → Except String (List UInt8)

def envelopeName : GoString := utf8 "snapshot.json"

def writeEnvelope (marshal : Marshal) (dir : GoString) (cfg : SnapshotConfig) (localName : String) :
    OsCode (Option String) :=
  match marshal cfg localName with
  | .error err => return some err
  | .ok data => sys (.writeFile (Path.join unix [dir, envelopeName]) data)

structure PeerRestorer where
  stagingRoot : GoString

namespace PeerRestorer

/-- What runs once the staging directory is there, with the deferred removal. -/
def fill (fmt : Verbs) (marshal : Marshal) (dir : GoString) (plan : PeerPlan) (cfg : SnapshotConfig)
    (name : String) : OsCode (Except String (GoString × VMSnapshot)) := do
  match ← fetchFiles fmt dir plan with
  | some err =>
    let _ ← sys (.removeAll dir)
    return .error err
  | none =>
    match ← writeEnvelope marshal dir cfg name with
    | some err =>
      let _ ← sys (.removeAll dir)
      return .error err
    | none => return .ok (dir, ⟨cfg.snapshotID, name, cfg.image, cfg.imageDigest, cfg.hypervisor⟩)

/-- What runs while the gate is held. -/
def gated (p : PeerRestorer) (fmt : Verbs) (marshal : Marshal) (baseURL name : String)
    (cfg : SnapshotConfig) : OsCode (Except String (GoString × VMSnapshot)) := do
  match ← fetchPlan baseURL name with
  | .error err => return .error err
  | .ok plan =>
    if plan.snapshotID ≠ utf8 cfg.snapshotID then
      return .error ("peer has snapshot " ++ fmt.s plan.snapshotID ++ ", registry says " ++ cfg.snapshotID)
    else
      match ← newStagingDir p.stagingRoot name with
      | .error err => return .error err
      | .ok dir => fill fmt marshal dir plan cfg name

def restore (p : PeerRestorer) (fmt : Verbs) (marshal : Marshal) (baseURL name : String)
    (cfg : SnapshotConfig) : OsCode (Except String (GoString × VMSnapshot)) := do
  match ← sys .acquire with
  | some err => return .error err
  | none =>
    let r ← gated p fmt marshal baseURL name cfg
    let _ ← sys .release
    return r

end PeerRestorer

/-! ### The file system -/

/-- `held` counts the permits of the caller, `unremoved` the directories that could not be removed. -/
structure Staging where
  held : ℕ
  dirs : Set GoString
  files : GoString → Option (List UInt8)
  unremoved : List GoString

/-- What the system, the peer and the link may do. -/
structure Surroundings where
  /-- the system may fail -/
  faults : Prop
  plans : PlanAnswer → Prop
  link : List StagedFile → List (PoolEvent Fetch FetchEvent Empty) → Prop

/-- The two states differ at most in the files of the directory. -/
structure SameOutside (dir : GoString) (s s' : Staging) : Prop where
  held : s'.held = s.held
  dirs : s'.dirs = s.dirs
  unremoved : s'.unremoved = s.unremoved
  files : ∀ path, ¬Path.Child unix dir path → s'.files path = s.files path

def Staging.write (s : Staging) (path : GoString) (data : List UInt8) : Staging :=
  { s with files := Function.update s.files path (some data) }

/-- The staged files have these contents, and the others the contents they had. -/
structure Stored (staged : List StagedFile) (contents : List (List UInt8)) (s s' : Staging) : Prop where
  held : s'.held = s.held
  dirs : s'.dirs = s.dirs
  unremoved : s'.unremoved = s.unremoved
  inside : ∀ (i : ℕ) f content, staged[i]? = some f → contents[i]? = some content →
    s'.files f.path = some content
  outside : ∀ path, (∀ f ∈ staged, f.path ≠ path) → s'.files path = s.files path

/-- `eg.Wait` returns when every task has ended, with an error if one has failed. -/
def Ended (c : Config (List (List UInt8)) Fetch) : Prop :=
  ∀ f ∈ c.threads, f.task.done ∨ f.task.pc = .failed

def Os (fmt : Verbs) (o : Surroundings) : Proc.Answers Staging OsCall OsAns := fun s q r s' =>
  match q, r with
  | .acquire, none => s' = { s with held := s.held + 1 }
  | .acquire, some _ => o.faults ∧ s' = s
  | .release, () => s' = { s with held := s.held - 1 }
  | .get _ _, r => o.plans r ∧ s' = s
  | .mkdirAll path, r => (r = none ∨ o.faults) ∧ s'.held = s.held ∧ s'.files = s.files ∧
      s'.unremoved = s.unremoved ∧
      ∀ d, (d ∈ s.dirs → d ∈ s'.dirs) ∧ (d ∈ s'.dirs → d ∈ s.dirs ∨ d <+: path)
  | .mkdirTemp root pattern, .ok dir => s' = { s with dirs := insert dir s.dirs } ∧ dir ∉ s.dirs ∧
      (∃ random : GoString, (∀ b ∈ random, 0x30 ≤ b ∧ b ≤ 0x39) ∧
        dir = Path.entry unix root (pattern ++ random)) ∧
      ∀ path, Path.Child unix dir path → path ∉ s.dirs ∧ s.files path = none
  | .mkdirTemp _ _, .error _ => o.faults ∧ s' = s
  | .openFile path, none => path ∉ s.dirs ∧ s.files path = none ∧ s' = s.write path []
  | .openFile path, some _ => (o.faults ∨ path ∈ s.dirs ∨ s.files path ≠ none) ∧ s' = s
  | .truncate path size, none =>
    0 ≤ size.toInt ∧ s' = s.write path (List.replicate size.toInt.toNat 0)
  | .truncate _ size, some _ => (o.faults ∨ size.toInt < 0) ∧ s' = s
  | .fetch staged, r => ∃ es c, (fetching fmt).machine.exec (startFetch staged) es = some c ∧
      o.link staged es ∧ Ended c ∧ (r = none ↔ ∀ f ∈ c.threads, f.task.done) ∧
      Stored staged c.shared s s'
  | .writeFile path data, none => path ∉ s.dirs ∧ s' = s.write path data
  | .writeFile path _, some _ => (o.faults ∨ path ∈ s.dirs) ∧ (s' = s ∨ ∃ part, s' = s.write path part)
  | .removeAll dir, none => s'.held = s.held ∧ s'.unremoved = s.unremoved ∧ s'.dirs = s.dirs \ {dir} ∧
      ∀ path, (Path.Child unix dir path → s'.files path = none) ∧
        (¬Path.Child unix dir path → s'.files path = s.files path)
  | .removeAll dir, some _ => o.faults ∧ s'.held = s.held ∧ s'.unremoved = dir :: s.unremoved ∧
      (s'.dirs = s.dirs ∨ s'.dirs = s.dirs \ {dir}) ∧
      ∀ path, ¬Path.Child unix dir path → s'.files path = s.files path

variable {fmt : Verbs} {o : Surroundings} {dir root path : GoString} {s s' s'' : Staging}
  {files : List NamedFile} {staged : List StagedFile} {marshal : Marshal} {cfg : SnapshotConfig}
  {baseURL name : String} {plan : PeerPlan}

/- The answer to a call, for each case of the system. -/
theorem wp_sys {β : Type} {q : OsCall} {f : OsAns q → OsCode β} {post : Staging → β → Prop}
    (h : ∀ r s', Os fmt o s q r s' → (f r).wp (Os fmt o) post s') :
    (sys q >>= f).wp (Os fmt o) post s :=
  Proc.wp_ask_bind.mpr h

theorem SameOutside.refl (s : Staging) : SameOutside dir s s := ⟨rfl, rfl, rfl, fun _ _ => rfl⟩

theorem SameOutside.trans (h : SameOutside dir s s') (h' : SameOutside dir s' s'') :
    SameOutside dir s s'' :=
  ⟨h'.held.trans h.held, h'.dirs.trans h.dirs, h'.unremoved.trans h.unremoved,
    fun path hp => (h'.files path hp).trans (h.files path hp)⟩

theorem sameOutside_write (hpath : Path.Child unix dir path) (data : List UInt8) :
    SameOutside dir s (s.write path data) := by
  refine ⟨rfl, rfl, rfl, fun path' hp => ?_⟩
  have hne : path' ≠ path := fun h => hp (h ▸ hpath)
  simp only [Staging.write, Function.update_of_ne hne]

/-- The directory is there and has exactly the staged files. -/
structure Holds (dir : GoString) (staged : List StagedFile) (s : Staging) : Prop where
  isDir : dir ∈ s.dirs
  flat : ∀ path, Path.Child unix dir path → path ∉ s.dirs
  child : ∀ f ∈ staged, Path.Child unix dir f.path
  distinct : (staged.map (·.path)).Nodup
  present : ∀ path, Path.Child unix dir path → (s.files path ≠ none ↔ path ∈ staged.map (·.path))

theorem Holds.congr (h : Holds dir staged s) (hs : SameOutside dir s s')
    (hfiles : ∀ path, Path.Child unix dir path → (s'.files path ≠ none ↔ s.files path ≠ none)) :
    Holds dir staged s' :=
  ⟨hs.dirs ▸ h.isDir, hs.dirs ▸ h.flat, h.child, h.distinct,
    fun path hp => (hfiles path hp).trans (h.present path hp)⟩

/-- A plan the waking node has nothing against. -/
structure Acceptable (dir : GoString) (staged : List StagedFile) (files : List NamedFile) : Prop where
  names : ∀ pf ∈ files, Path.IsName unix pf.name
  tasks : ∀ pf ∈ files, (fetchTasks pf.toPeerFile).isSome
  sizes : ∀ pf ∈ files, 0 ≤ pf.size.toInt
  distinct : (files.map (·.name)).Nodup
  fresh : ∀ pf ∈ files, Path.join unix [dir, pf.name] ∉ staged.map (·.path)

/- The name is no directory's, so it is not that of the separator. -/
theorem child_of_open {pf : NamedFile} (hdir : Path.IsDir unix dir) (hin : dir ∈ s.dirs)
    (hplain : isPlainName pf.name = true) (hnot : Path.join unix [dir, pf.name] ∉ s.dirs) :
    Path.IsName unix pf.name ∧ Path.Child unix dir (Path.join unix [dir, pf.name]) := by
  have hne : pf.name ≠ [unix.slash] := by
    intro h
    rw [h, Path.join_slash hdir] at hnot
    exact hnot hin
  exact ⟨isName_of_plain hplain hne, (child_join_iff hdir hplain).mpr hne⟩

theorem stageFiles_wp (hdir : Path.IsDir unix dir) (h : Holds dir staged s) :
    (PeerRestorer.stageFiles fmt dir staged files).wp (Os fmt o) (fun s' r => SameOutside dir s s' ∧
      (∀ staged', r = .ok staged' → ∃ new, staged' = staged ++ new ∧
        List.Forall₂ (Stages dir) files new ∧ Holds dir staged' s') ∧
      (¬o.faults → Acceptable dir staged files → ∃ staged', r = .ok staged')) s := by
  induction files generalizing staged s with
  | nil =>
    refine ⟨SameOutside.refl s, fun staged' heq => ?_, fun _ _ => ⟨staged, rfl⟩⟩
    cases heq
    exact ⟨[], (List.append_nil _).symm, .nil, h⟩
  | cons pf files ih =>
    unfold PeerRestorer.stageFiles
    have hrefuse : ∀ {e : String} {P : Prop}, P → SameOutside dir s s ∧
        (∀ staged', (Except.error e : Except String (List StagedFile)) = .ok staged' →
          ∃ new, staged' = staged ++ new ∧ List.Forall₂ (Stages dir) (pf :: files) new ∧
          Holds dir staged' s) ∧ P :=
      fun hP => ⟨SameOutside.refl s, fun _ heq => (by cases heq), hP⟩
    cases hplain : isPlainName pf.name with
    | false =>
      simp only [Bool.not_false, if_true]
      refine hrefuse fun _ hacc => ?_
      have hname := hacc.names pf List.mem_cons_self
      rw [isPlainName_iff.mpr (Or.inr hname)] at hplain
      cases hplain
    | true =>
      simp only [Bool.not_true, Bool.false_eq_true, if_false]
      cases htasks : fetchTasks pf.toPeerFile with
      | none =>
        refine hrefuse fun _ hacc => ?_
        have hsome := hacc.tasks pf List.mem_cons_self
        rw [htasks] at hsome
        cases hsome
      | some groups =>
        refine wp_sys fun r s₁ hopen => ?_
        cases r with
        | some err =>
          obtain ⟨hwhy, rfl⟩ := hopen
          refine hrefuse fun hfault hacc => ?_
          have hname := hacc.names pf List.mem_cons_self
          have hchild := Path.child_join hdir hname
          rcases hwhy with hf | hd | hex
          · exact absurd hf hfault
          · exact absurd hd (h.flat _ hchild)
          · exact absurd ((h.present _ hchild).mp hex) (hacc.fresh pf List.mem_cons_self)
        | none =>
          obtain ⟨hnodir, hnofile, rfl⟩ := hopen
          obtain ⟨hname, hchild⟩ := child_of_open hdir h.isDir hplain hnodir
          refine wp_sys fun r s₂ htrunc => ?_
          have hout := sameOutside_write (s := s) hchild []
          cases r with
          | some err =>
            obtain ⟨hwhy, rfl⟩ := htrunc
            refine ⟨hout, fun _ heq => (by cases heq), fun hfault hacc => ?_⟩
            have hsize := hacc.sizes pf List.mem_cons_self
            rcases hwhy with hf | hneg
            · exact absurd hf hfault
            · omega
          | none =>
            obtain ⟨-, rfl⟩ := htrunc
            have hout₂ := hout.trans (sameOutside_write hchild (List.replicate pf.size.toInt.toNat 0))
            have hnew : Path.join unix [dir, pf.name] ∉ staged.map (·.path) := fun hm =>
              (h.present _ hchild).mpr hm hnofile
            have hnext : Holds dir (staged ++ [⟨Path.join unix [dir, pf.name], pf.size, groups⟩])
                ((s.write (Path.join unix [dir, pf.name]) []).write (Path.join unix [dir, pf.name])
                  (List.replicate pf.size.toInt.toNat 0)) := by
              refine ⟨h.isDir, h.flat, ?_, ?_, ?_⟩
              · intro f hf
                rcases List.mem_append.mp hf with hf | hf
                · exact h.child f hf
                · rw [List.mem_singleton.mp hf]
                  exact hchild
              · rw [List.map_append, List.map_singleton, List.nodup_append]
                refine ⟨h.distinct, List.nodup_singleton _, fun a ha b hb hab => ?_⟩
                rw [hab, List.mem_singleton.mp hb] at ha
                exact hnew ha
              · intro path hp
                rw [List.map_append, List.map_singleton, List.mem_append, List.mem_singleton]
                by_cases heq : path = Path.join unix [dir, pf.name]
                · subst heq
                  simp [Staging.write]
                · simp only [Staging.write, Function.update_of_ne heq, heq, or_false]
                  exact h.present path hp
            refine Proc.wp_mono (fun s₃ r ⟨hsame, hok, hacc⟩ => ⟨hout₂.trans hsame, ?_, ?_⟩) (ih hnext)
            · intro staged' heq
              obtain ⟨new, rfl, hstages, hholds⟩ := hok staged' heq
              refine ⟨_ :: new, by rw [List.append_assoc]; rfl, .cons ⟨hplain, htasks, rfl, rfl⟩ hstages, hholds⟩
            · intro hfault ha
              refine hacc hfault ⟨fun x hx => ha.names x (List.mem_cons_of_mem _ hx),
                fun x hx => ha.tasks x (List.mem_cons_of_mem _ hx),
                fun x hx => ha.sizes x (List.mem_cons_of_mem _ hx), (List.nodup_cons.mp ha.distinct).2,
                fun x hx hm => ?_⟩
              rw [List.map_append, List.map_singleton, List.mem_append, List.mem_singleton] at hm
              rcases hm with hm | hm
              · exact ha.fresh x (List.mem_cons_of_mem _ hx) hm
              · rw [Path.join_name hdir (ha.names x (List.mem_cons_of_mem _ hx)),
                  Path.join_name hdir hname, Path.entry_inj] at hm
                exact (List.nodup_cons.mp ha.distinct).1 (List.mem_map.mpr ⟨x, hx, hm⟩)

/-! ### The files of a plan -/

theorem fetching_length (es : List (PoolEvent Fetch FetchEvent Empty))
    (c c' : Config (List (List UInt8)) Fetch) (h : (fetching fmt).machine.exec c es = some c') :
    c'.shared.length = c.shared.length := by
  induction es generalizing c with
  | nil =>
    cases h
    rfl
  | cons e es ih =>
    obtain ⟨c₁, hstep, hrest⟩ := (Machine.exec_cons_some _).mp h
    rw [ih c₁ hrest]
    cases e with
    | start t => cases hstep
    | env o => cases o
    | run k e =>
      obtain ⟨f, file, file', f', -, -, -, rfl⟩ := fetching_run hstep
      exact List.length_set

/-- The tasks of a plan have all ended well, and the staged files have what they wrote. -/
structure Fetched (fmt : Verbs) (o : Surroundings) (dir : GoString) (files : List NamedFile)
    (staged : List StagedFile) (contents : List (List UInt8)) (s : Staging) : Prop where
  stages : List.Forall₂ (Stages dir) files staged
  run : ∃ es c, (fetching fmt).machine.exec (startFetch staged) es = some c ∧ o.link staged es ∧
    (∀ f ∈ c.threads, f.task.done) ∧ c.shared = contents
  holds : Holds dir staged s
  stored : ∀ (i : ℕ) f content, staged[i]? = some f → contents[i]? = some content →
    s.files f.path = some content

/-- No task of these files can fail. -/
def Unfailing (fmt : Verbs) (o : Surroundings) (dir : GoString) (files : List NamedFile) : Prop :=
  ∀ staged es c, List.Forall₂ (Stages dir) files staged → o.link staged es →
    (fetching fmt).machine.exec (startFetch staged) es = some c → ∀ f ∈ c.threads, f.task.pc ≠ .failed

theorem stored_holds {contents : List (List UInt8)} (hlen : contents.length = staged.length)
    (h : Holds dir staged s) (hst : Stored staged contents s s') :
    SameOutside dir s s' ∧ Holds dir staged s' := by
  have hout : SameOutside dir s s' := by
    refine ⟨hst.held, hst.dirs, hst.unremoved, fun path hp => hst.outside path fun f hf heq => ?_⟩
    exact hp (heq ▸ h.child f hf)
  refine ⟨hout, h.congr hout fun path _ => ?_⟩
  by_cases hmem : path ∈ staged.map (·.path)
  · obtain ⟨f, hf, rfl⟩ := List.mem_map.mp hmem
    obtain ⟨i, hi⟩ := List.mem_iff_getElem?.mp hf
    have hlt : i < contents.length := by
      rw [hlen]
      exact (List.getElem?_eq_some_iff.mp hi).1
    rw [hst.inside i f _ hi (List.getElem?_eq_getElem hlt)]
    simp only [ne_eq, reduceCtorEq, not_false_eq_true, true_iff]
    exact (h.present _ (h.child f hf)).mpr hmem
  · rw [hst.outside path fun f hf heq => hmem (heq ▸ List.mem_map_of_mem hf)]

theorem fetchFiles_wp (hdir : Path.IsDir unix dir) (h : Holds dir [] s) :
    (PeerRestorer.fetchFiles fmt dir plan).wp (Os fmt o) (fun s' r => SameOutside dir s s' ∧
      (r = none → ∃ staged contents, Fetched fmt o dir plan.files staged contents s') ∧
      (¬o.faults → Acceptable dir [] plan.files → Unfailing fmt o dir plan.files → r = none)) s := by
  refine Proc.wp_seq (stageFiles_wp hdir h) fun s₁ r ⟨hout, hok, hacc⟩ => ?_
  cases r with
  | error err =>
    refine ⟨hout, fun heq => (by cases heq), fun hfault ha _ => ?_⟩
    obtain ⟨staged, heq⟩ := hacc hfault ha
    cases heq
  | ok staged =>
    obtain ⟨new, hnew, hstages, hholds⟩ := hok staged rfl
    rw [List.nil_append] at hnew
    subst hnew
    rintro r s₂ ⟨es, c, hexec, hlink, hended, hr, hstored⟩
    have hlen : c.shared.length = staged.length := by
      rw [fetching_length es _ c hexec]
      exact List.length_map _
    obtain ⟨hout₂, hholds₂⟩ := stored_holds hlen hholds hstored
    refine ⟨hout.trans hout₂, fun hnone => ?_, fun _ _ hun => ?_⟩
    · exact ⟨staged, c.shared, hstages, ⟨es, c, hexec, hlink, hr.mp hnone, rfl⟩, hholds₂, hstored.inside⟩
    · exact hr.mpr fun f hf =>
        (hended f hf).resolve_right (hun staged es c hstages hlink hexec f hf)

/-! ### Names -/

theorem sanitizeRune_ne_slash (r : Char) : sanitizeRune r ≠ unix.slash := by
  unfold sanitizeRune
  split
  next h =>
    intro heq
    have hnat : r.toNat % 256 = 0x2f := congrArg UInt8.toNat heq
    simp only [Char.le_def, Char.ext_iff, ← UInt32.toNat_inj, UInt32.le_iff_toNat_le] at h
    have hval : r.val.toNat = r.toNat := rfl
    rw [hval] at h
    have h' : (97 ≤ r.toNat ∧ r.toNat ≤ 122) ∨ (65 ≤ r.toNat ∧ r.toNat ≤ 90) ∨
        (48 ≤ r.toNat ∧ r.toNat ≤ 57) ∨ r.toNat = 45 ∨ r.toNat = 46 := h
    omega
  next => decide

theorem stagingName_isName (localName : String) {random : GoString}
    (hrandom : ∀ b ∈ random, 0x30 ≤ b ∧ b ≤ 0x39) :
    Path.IsName unix (sanitizeStagingPrefix localName ++ [0x2d] ++ random) := by
  have hdash : (0x2d : UInt8) ∈ sanitizeStagingPrefix localName ++ [0x2d] ++ random := by simp
  refine ⟨List.ne_nil_of_mem hdash, fun hs => ?_, fun heq => ?_, fun heq => ?_⟩
  · rw [List.mem_append, List.mem_append] at hs
    rcases hs with (hs | hs) | hs
    · obtain ⟨r, -, hr⟩ := List.mem_map.mp hs
      exact sanitizeRune_ne_slash r hr
    · exact absurd (List.mem_singleton.mp hs) (by decide)
    · exact absurd (hrandom _ hs).1 (by decide)
  · rw [heq] at hdash
    exact absurd hdash (by decide)
  · rw [heq] at hdash
    exact absurd hdash (by decide)

theorem envelopeName_isName : Path.IsName unix envelopeName := by
  have hbytes : envelopeName = [115, 110, 97, 112, 115, 104, 111, 116, 46, 106, 115, 111, 110] := by
    decide +kernel
  rw [hbytes]
  exact ⟨by decide, by decide, by decide, by decide⟩

/-! ### The whole restore -/

/-- What a failed restore leaves: nothing new but the staging root, unless the removal failed too. -/
structure Undone (root : GoString) (s s' : Staging) : Prop where
  held : s'.held = s.held
  files : s'.unremoved = s.unremoved → s'.files = s.files
  dirs : s'.unremoved = s.unremoved → ∀ d ∈ s'.dirs, d ∈ s.dirs ∨ d <+: root

/-- What a restore returns: a directory of its own below the staging root with the files of a plan
for the snapshot of the registry, and the registry's envelope. -/
structure Restored (fmt : Verbs) (o : Surroundings) (marshal : Marshal) (cfg : SnapshotConfig)
    (name : String) (root : GoString) (s s' : Staging) (dir : GoString) (snapshot : VMSnapshot) :
    Prop where
  held : s'.held = s.held
  child : Path.Child unix root dir
  fresh : dir ∉ s.dirs ∧ dir ∈ s'.dirs
  outside : ∀ path, ¬Path.Child unix dir path → s'.files path = s.files path
  snapshot : snapshot = ⟨cfg.snapshotID, name, cfg.image, cfg.imageDigest, cfg.hypervisor⟩
  envelope : ∃ data, marshal cfg name = .ok data ∧ s'.files (Path.entry unix dir envelopeName) = some data
  files : ∃ plan staged contents s₁, o.plans (.body (.ok plan)) ∧
    plan.snapshotID = utf8 cfg.snapshotID ∧ Fetched fmt o dir plan.files staged contents s₁ ∧
    ∀ path, Path.Child unix dir path → path ≠ Path.entry unix dir envelopeName →
      s'.files path = s₁.files path

def Outcome (fmt : Verbs) (o : Surroundings) (marshal : Marshal) (cfg : SnapshotConfig)
    (name : String) (root : GoString) (s s' : Staging) : Except String (GoString × VMSnapshot) → Prop
  | .error _ => Undone root s s'
  | .ok r => Restored fmt o marshal cfg name root s s' r.1 r.2

/-- Nothing fails, and the peer has a plan for the snapshot of the registry that can be fetched. -/
structure Favourable (fmt : Verbs) (o : Surroundings) (marshal : Marshal) (cfg : SnapshotConfig)
    (name : String) : Prop where
  faults : ¬o.faults
  plan : ∀ a, o.plans a → ∃ plan, a = .body (.ok plan) ∧ plan.snapshotID = utf8 cfg.snapshotID ∧
    ∀ dir, Path.IsDir unix dir → Acceptable dir [] plan.files ∧ Unfailing fmt o dir plan.files
  envelope : ∃ data, marshal cfg name = .ok data

theorem Undone.refl (s : Staging) : Undone root s s :=
  ⟨rfl, fun _ => rfl, fun _ _ hd => Or.inl hd⟩

/- The deferred removal, from a state that differs from `s` by the staging directory only. -/
theorem removeAll_wp {s₁ : Staging} (hempty : ∀ path, Path.Child unix dir path → s.files path = none)
    (hheld : s₁.held = s.held) (hun : s₁.unremoved = s.unremoved)
    (hdirs : ∀ d ∈ s₁.dirs, d = dir ∨ d ∈ s.dirs ∨ d <+: root)
    (hfiles : ∀ path, ¬Path.Child unix dir path → s₁.files path = s.files path) (err : String) :
    (do let _ ← sys (.removeAll dir)
        return .error err : OsCode (Except String (GoString × VMSnapshot))).wp (Os fmt o)
      (fun s' r => Undone root s s' ∧ ∃ e, r = .error e) s₁ := by
  refine wp_sys fun r s' hrm => ?_
  cases r with
  | none =>
    obtain ⟨hh, hu, hd, hf⟩ := hrm
    refine ⟨⟨hh.trans hheld, fun _ => funext fun path => ?_, fun _ d hd' => ?_⟩, err, rfl⟩
    · by_cases hp : Path.Child unix dir path
      · rw [(hf path).1 hp, hempty path hp]
      · rw [(hf path).2 hp, hfiles path hp]
    · rw [hd] at hd'
      exact (hdirs d hd'.1).resolve_left hd'.2
  | some e =>
    obtain ⟨-, hh, hu, -, -⟩ := hrm
    have hne : s'.unremoved ≠ s.unremoved := by
      rw [hu, hun]
      exact List.cons_ne_self dir _
    exact ⟨⟨hh.trans hheld, fun h => absurd h hne, fun h => absurd h hne⟩, err, rfl⟩

/-- What `newStagingDir` leaves when it succeeds. -/
structure NewDir (root : GoString) (s s' : Staging) (dir : GoString) : Prop where
  held : s'.held = s.held
  unremoved : s'.unremoved = s.unremoved
  files : s'.files = s.files
  child : Path.Child unix root dir
  fresh : dir ∉ s.dirs
  dirs : dir ∈ s'.dirs ∧ ∀ d ∈ s'.dirs, d = dir ∨ d ∈ s.dirs ∨ d <+: root
  empty : ∀ path, Path.Child unix dir path → path ∉ s'.dirs ∧ s.files path = none

theorem newStagingDir_wp (hroot : root ≠ []) :
    (newStagingDir root name).wp (Os fmt o) (fun s' r => (∀ e, r = .error e → Undone root s s') ∧
      (∀ dir, r = .ok dir → NewDir root s s' dir) ∧ (¬o.faults → ∃ dir, r = .ok dir)) s := by
  unfold newStagingDir
  rw [if_neg hroot]
  refine wp_sys fun r s₁ hall => ?_
  obtain ⟨hwhy, hheld, hfiles, hun, hdirs⟩ := hall
  have hback : Undone root s s₁ := ⟨hheld, fun _ => hfiles, fun _ d hd => (hdirs d).2 hd⟩
  cases r with
  | some err =>
    refine ⟨fun _ _ => hback, fun _ heq => (by cases heq), fun hfault => ?_⟩
    rcases hwhy with heq | hf
    · cases heq
    · exact absurd hf hfault
  | none =>
    refine wp_sys fun r s₂ htemp => ?_
    cases r with
    | error err =>
      obtain ⟨hf, rfl⟩ := htemp
      exact ⟨fun _ _ => hback, fun _ heq => (by cases heq), fun hfault => absurd hf hfault⟩
    | ok dir =>
      obtain ⟨rfl, hnew, ⟨random, hrandom, hentry⟩, hempty⟩ := htemp
      refine ⟨fun _ heq => (by cases heq), fun dir' heq => ?_, fun _ => ⟨dir, rfl⟩⟩
      cases heq
      refine ⟨hheld, hun, hfiles, ⟨_, stagingName_isName name hrandom, hentry⟩,
        fun hd => hnew ((hdirs dir).1 hd), ⟨Set.mem_insert _ _, fun d hd => ?_⟩, fun path hp => ?_⟩
      · rcases hd with rfl | hd
        · exact Or.inl rfl
        · exact Or.inr ((hdirs d).2 hd)
      · obtain ⟨hnodir, hnofile⟩ := hempty path hp
        refine ⟨fun hd => ?_, by rw [← hfiles]; exact hnofile⟩
        rcases hd with rfl | hd
        · exact Path.not_child_self hp
        · exact hnodir hd

theorem NewDir.holds (h : NewDir root s s' dir) : Holds dir [] s' := by
  refine ⟨h.dirs.1, fun path hp => (h.empty path hp).1, fun f hf => (by cases hf), List.nodup_nil,
    fun path hp => ?_⟩
  rw [h.files, (h.empty path hp).2]
  simp

theorem fill_wp {s₁ : Staging} (hdir : Path.IsDir unix dir) (hplan : o.plans (.body (.ok plan)))
    (hid : plan.snapshotID = utf8 cfg.snapshotID) (h : NewDir root s s₁ dir) :
    (PeerRestorer.fill fmt marshal dir plan cfg name).wp (Os fmt o) (fun s' r =>
      Outcome fmt o marshal cfg name root s s' r ∧
      (¬o.faults → Acceptable dir [] plan.files → Unfailing fmt o dir plan.files →
        (∃ data, marshal cfg name = .ok data) → ∃ x, r = .ok x)) s₁ := by
  have hempty : ∀ path, Path.Child unix dir path → s.files path = none := fun path hp => (h.empty path hp).2
  have hjoin : Path.join unix [dir, envelopeName] = Path.entry unix dir envelopeName :=
    Path.join_name hdir envelopeName_isName
  have henv : Path.Child unix dir (Path.entry unix dir envelopeName) := ⟨_, envelopeName_isName, rfl⟩
  -- a state the removal can start from
  have hundo : ∀ {s₂ : Staging} (e : String), SameOutside dir s₁ s₂ →
      (do let _ ← sys (.removeAll dir)
          return .error e : OsCode (Except String (GoString × VMSnapshot))).wp (Os fmt o)
        (fun s' r => Undone root s s' ∧ ∃ e, r = .error e) s₂ := by
    intro s₂ e hout
    exact removeAll_wp hempty (hout.held.trans h.held) (hout.unremoved.trans h.unremoved)
      (fun d hd => h.dirs.2 d (hout.dirs ▸ hd))
      (fun path hp => (hout.files path hp).trans (congrFun h.files path)) e
  refine Proc.wp_seq (fetchFiles_wp hdir h.holds) fun s₂ r ⟨hout, hok, hgood⟩ => ?_
  cases r with
  | some err =>
    refine Proc.wp_mono (fun s' r hr => ?_) (hundo err hout)
    obtain ⟨hback, e, rfl⟩ := hr
    refine ⟨hback, fun hfault ha hu _ => ?_⟩
    cases hgood hfault ha hu
  | none =>
    obtain ⟨staged, contents, hfetched⟩ := hok rfl
    unfold writeEnvelope
    cases hmarshal : marshal cfg name with
    | error err =>
      refine Proc.wp_mono (fun s' r hr => ?_) (hundo err hout)
      obtain ⟨hback, e, rfl⟩ := hr
      refine ⟨hback, fun _ _ _ hdata => ?_⟩
      obtain ⟨data, hdata⟩ := hdata
      cases hdata
    | ok data =>
      refine wp_sys fun r s₃ hwrite => ?_
      rw [hjoin] at hwrite
      cases r with
      | some err =>
        obtain ⟨hwhy, hs₃⟩ := hwrite
        have hout₃ : SameOutside dir s₁ s₃ := by
          rcases hs₃ with rfl | ⟨part, rfl⟩
          · exact hout
          · exact hout.trans (sameOutside_write henv part)
        refine Proc.wp_mono (fun s' r hr => ?_) (hundo err hout₃)
        obtain ⟨hback, e, rfl⟩ := hr
        refine ⟨hback, fun hfault _ _ _ => ?_⟩
        rcases hwhy with hf | hd
        · exact absurd hf hfault
        · exact absurd hd (hfetched.holds.flat _ henv)
      | none =>
        obtain ⟨-, rfl⟩ := hwrite
        have hout₃ := hout.trans (sameOutside_write henv data)
        refine ⟨?_, fun _ _ _ _ => ⟨_, rfl⟩⟩
        refine ⟨hout₃.held.trans h.held, h.child, ⟨h.fresh, hout₃.dirs ▸ h.dirs.1⟩, fun path hp => ?_, rfl,
          ⟨data, hmarshal, ?_⟩, plan, staged, contents, s₂, hplan, hid, hfetched, fun path _ hne => ?_⟩
        · exact (hout₃.files path hp).trans (congrFun h.files path)
        · exact Function.update_self _ _ _
        · exact Function.update_of_ne hne _ _

theorem fetchPlan_wp : (fetchPlan baseURL name).wp (Os fmt o) (fun s' r => s' = s ∧
    ∃ a, o.plans a ∧ ∀ plan, r = .ok plan ↔ a = .body (.ok plan)) s := by
  refine wp_sys fun a s' hget => ?_
  obtain ⟨hplans, rfl⟩ := hget
  cases a with
  | failed err => exact ⟨rfl, _, hplans, fun _ => by simp⟩
  | status line msg => exact ⟨rfl, _, hplans, fun _ => by simp⟩
  | body b =>
    cases b with
    | error err => exact ⟨rfl, _, hplans, fun _ => by simp⟩
    | ok plan => exact ⟨rfl, _, hplans, fun _ => by simp⟩

theorem gated_wp {p : PeerRestorer} (hroot : Path.IsDir unix p.stagingRoot) :
    (p.gated fmt marshal baseURL name cfg).wp (Os fmt o) (fun s' r =>
      Outcome fmt o marshal cfg name p.stagingRoot s s' r ∧
      (Favourable fmt o marshal cfg name → ∃ x, r = .ok x)) s := by
  refine Proc.wp_seq fetchPlan_wp fun s₁ r ⟨hs, a, hplans, hr⟩ => ?_
  subst hs
  cases r with
  | error err =>
    refine ⟨Undone.refl s₁, fun hfav => ?_⟩
    obtain ⟨plan, rfl, -⟩ := hfav.plan a hplans
    cases (hr plan).mpr rfl
  | ok plan =>
    obtain rfl := (hr plan).mp rfl
    by_cases hid : plan.snapshotID = utf8 cfg.snapshotID
    · simp only [hid, ne_eq, not_true_eq_false, if_false]
      refine Proc.wp_seq (newStagingDir_wp hroot.ne_nil) fun s₂ r ⟨herr, hok, hgood⟩ => ?_
      cases r with
      | error err =>
        refine ⟨herr err rfl, fun hfav => ?_⟩
        obtain ⟨dir, heq⟩ := hgood hfav.faults
        cases heq
      | ok dir =>
        have hnew := hok dir rfl
        obtain ⟨stem, hstem, hentry⟩ := hnew.child
        have hdir : Path.IsDir unix dir := by
          rw [hentry, ← Path.join_name hroot hstem]
          exact Path.join_isDir hroot hstem
        refine Proc.wp_mono (fun s' r ⟨hout, hfine⟩ => ⟨hout, fun hfav => ?_⟩)
          (fill_wp hdir hplans hid hnew)
        obtain ⟨plan', heq, -, hall⟩ := hfav.plan _ hplans
        cases heq
        obtain ⟨hacc, hun⟩ := hall dir hdir
        exact hfine hfav.faults hacc hun hfav.envelope
    · simp only [hid, ne_eq, not_false_eq_true, if_true]
      refine ⟨Undone.refl s₁, fun hfav => ?_⟩
      obtain ⟨plan', heq, hid', -⟩ := hfav.plan _ hplans
      cases heq
      exact absurd hid' hid

theorem restore_wp {p : PeerRestorer} (hroot : Path.IsDir unix p.stagingRoot) :
    (p.restore fmt marshal baseURL name cfg).wp (Os fmt o) (fun s' r =>
      Outcome fmt o marshal cfg name p.stagingRoot s s' r ∧
      (Favourable fmt o marshal cfg name → ∃ x, r = .ok x)) s := by
  refine wp_sys fun r s₁ hacq => ?_
  cases r with
  | some err =>
    obtain ⟨hf, rfl⟩ := hacq
    exact ⟨Undone.refl s₁, fun hfav => absurd hf hfav.faults⟩
  | none =>
    subst hacq
    refine Proc.wp_seq (gated_wp hroot) fun s₂ r ⟨hout, hgood⟩ => ?_
    refine wp_sys fun _ s' hrel => ?_
    -- the permit goes back whatever came of the restore
    have hs' : s' = { s₂ with held := s₂.held - 1 } := hrel
    subst hs'
    refine ⟨?_, hgood⟩
    cases r with
    | error err =>
      have hback : Undone p.stagingRoot _ s₂ := hout
      refine ⟨?_, hback.files, hback.dirs⟩
      simp only [hback.held, Nat.add_sub_cancel]
    | ok x =>
      have hres : Restored fmt o marshal cfg name p.stagingRoot _ s₂ x.1 x.2 := hout
      refine ⟨?_, hres.child, hres.fresh, hres.outside, hres.snapshot, hres.envelope, hres.files⟩
      simp only [hres.held, Nat.add_sub_cancel]

theorem forall₂_right {α β : Type} {R : α → β → Prop} {l : List α} {l' : List β} (h : List.Forall₂ R l l')
    {b : β} (hb : b ∈ l') : ∃ a ∈ l, R a b := by
  induction h with
  | nil => cases hb
  | cons hr _ ih =>
    rcases List.mem_cons.mp hb with rfl | hb
    · exact ⟨_, List.mem_cons_self, hr⟩
    · obtain ⟨a, ha, hab⟩ := ih hb
      exact ⟨a, List.mem_cons_of_mem _ ha, hab⟩

/-- Whatever the peer sends: the permit is given back; a restore that fails leaves no file and no
directory of its own behind unless the removal fails too; one that succeeds has touched nothing
outside a new directory below the staging root, and what identifies the snapshot is the
registry's. -/
theorem restore_settles (fmt : Verbs) (o : Surroundings) (marshal : Marshal) (p : PeerRestorer)
    (baseURL name : String) (cfg : SnapshotConfig) (hroot : Path.IsDir unix p.stagingRoot)
    (s s' : Staging) (r : Except String (GoString × VMSnapshot))
    (h : Proc.Exec (Os fmt o) s (p.restore fmt marshal baseURL name cfg) s' r) :
    s'.held = s.held ∧
    (∀ e, r = .error e → s'.unremoved = s.unremoved →
      s'.files = s.files ∧ ∀ d ∈ s'.dirs, d ∈ s.dirs ∨ d <+: p.stagingRoot) ∧
    ∀ dir snapshot, r = .ok (dir, snapshot) →
      Path.Child unix p.stagingRoot dir ∧ dir ∉ s.dirs ∧
      (∀ path, ¬Path.Child unix dir path → s'.files path = s.files path) ∧
      snapshot = ⟨cfg.snapshotID, name, cfg.image, cfg.imageDigest, cfg.hypervisor⟩ ∧
      (∃ data, marshal cfg name = .ok data ∧ s'.files (Path.entry unix dir envelopeName) = some data) ∧
      ∃ plan, o.plans (.body (.ok plan)) ∧ plan.snapshotID = utf8 cfg.snapshotID ∧
        ∀ path, Path.Child unix dir path → s'.files path ≠ none →
          path = Path.entry unix dir envelopeName ∨
            ∃ pf ∈ plan.files, path = Path.join unix [dir, pf.name] := by
  obtain ⟨hout, -⟩ := h.post (restore_wp hroot)
  cases r with
  | error e =>
    have hback : Undone p.stagingRoot s s' := hout
    exact ⟨hback.held, fun _ _ hun => ⟨hback.files hun, hback.dirs hun⟩, fun _ _ heq => by cases heq⟩
  | ok x =>
    have hres : Restored fmt o marshal cfg name p.stagingRoot s s' x.1 x.2 := hout
    refine ⟨hres.held, fun _ heq => (by cases heq), fun dir snapshot heq => ?_⟩
    cases heq
    obtain ⟨plan, staged, contents, s₁, hplan, hid, hfetched, hrest⟩ := hres.files
    refine ⟨hres.child, hres.fresh.1, hres.outside, hres.snapshot, hres.envelope, plan, hplan, hid,
      fun path hp hfile => ?_⟩
    by_cases henv : path = Path.entry unix dir envelopeName
    · exact Or.inl henv
    · rw [hrest path hp henv] at hfile
      obtain ⟨f, hf, rfl⟩ := List.mem_map.mp ((hfetched.holds.present path hp).mp hfile)
      obtain ⟨pf, hpf, hs⟩ := forall₂_right hfetched.stages hf
      exact Or.inr ⟨pf, hpf, hs.path⟩

/-! ### The restore of a wake -/

/-- Calls that are answered in some way. -/
def anyAnswer : Proc.Answers Unit Call Ans := fun _ _ _ _ => True

/-- The plan with its names as the wake prints them. -/
def PeerPlan.printed (fmt : Verbs) (plan : PeerPlan) : VkCocoon.PeerPlan :=
  ⟨fmt.s plan.snapshotID, plan.files.map fun pf => (fmt.s pf.name, pf.toPeerFile)⟩

section Wake
variable {p : PeerRestorer} (hfmt : ∀ text, fmt.s (utf8 text) = text)
  (htext : ∀ plan, o.plans (.body (.ok plan)) → ∃ id, plan.snapshotID = utf8 id)

/-- A run of the restore is one of the restore a wake makes, with these results. -/
abbrev OfWake (fmt : Verbs) (baseURL name : String) (cfg : SnapshotConfig) (_ : Staging)
    (r : Except String (GoString × VMSnapshot)) : Prop :=
  Proc.Exec anyAnswer () (VkCocoon.restore baseURL name cfg) () (r.map fun x => (fmt.s x.1, x.2))

theorem answered {α : Type} (q : Call) (r : Ans q) {k : Ans q → Code α} {a : α}
    (h : Proc.Exec anyAnswer () (k r) () a) : Proc.Exec anyAnswer () (VkCocoon.ask q >>= k) () a :=
  .call trivial h

/- The plan is for the snapshot of the registry. -/
theorem planned_of_wake {plan : VkCocoon.PeerPlan} (hid : plan.snapshotID = cfg.snapshotID)
    {x : Except String (String × VMSnapshot)}
    (h : Proc.Exec anyAnswer () (stageRestore baseURL name cfg plan) () x) :
    Proc.Exec anyAnswer () (VkCocoon.restore baseURL name cfg) () x := by
  refine answered .acquirePeerGate (.ok ()) (answered (.fetchPlan baseURL name) (.ok plan) ?_)
  have hsame : ¬(plan.snapshotID != cfg.snapshotID) = true := by simp [hid]
  simp only [if_neg hsame]
  exact h

/- A procedure that only matters for its result. -/
theorem wp_any {α : Type} (q : OsCode α) (s : Staging) : q.wp (Os fmt o) (fun _ _ => True) s :=
  Proc.wp_mono (fun _ _ _ => trivial) (Proc.wp_exec q s)

theorem fill_of_wake (hid : (plan.printed fmt).snapshotID = cfg.snapshotID) (dir : GoString) :
    (PeerRestorer.fill fmt marshal dir plan cfg name).wp (Os fmt o) (OfWake fmt baseURL name cfg) s := by
  refine Proc.wp_seq (wp_any _ s) fun s₁ r _ => ?_
  cases r with
  | some err =>
    refine wp_sys fun _ s₂ _ => planned_of_wake hid ?_
    refine answered (.newStagingDir name) (.ok (fmt.s dir)) ?_
    refine answered (.fetchFiles baseURL (plan.printed fmt) (fmt.s dir)) (.error ⟨err, false⟩) ?_
    exact answered (.removeAll (fmt.s dir)) () (.ret _ _)
  | none =>
    refine Proc.wp_seq (wp_any _ s₁) fun s₂ r _ => ?_
    cases r with
    | some err =>
      refine wp_sys fun _ s₃ _ => planned_of_wake hid ?_
      refine answered (.newStagingDir name) (.ok (fmt.s dir)) ?_
      refine answered (.fetchFiles baseURL (plan.printed fmt) (fmt.s dir)) (.ok ()) ?_
      refine answered (.writeEnvelope (fmt.s dir) cfg name) (.error ⟨err, false⟩) ?_
      exact answered (.removeAll (fmt.s dir)) () (.ret _ _)
    | none =>
      refine planned_of_wake hid ?_
      refine answered (.newStagingDir name) (.ok (fmt.s dir)) ?_
      refine answered (.fetchFiles baseURL (plan.printed fmt) (fmt.s dir)) (.ok ()) ?_
      exact answered (.writeEnvelope (fmt.s dir) cfg name) (.ok ()) (.ret _ _)

include hfmt htext

theorem gated_of_wake :
    (p.gated fmt marshal baseURL name cfg).wp (Os fmt o) (OfWake fmt baseURL name cfg) s := by
  refine Proc.wp_seq fetchPlan_wp fun s₁ r ⟨_, a, hplans, hr⟩ => ?_
  cases r with
  | error err =>
    refine answered .acquirePeerGate (.ok ()) ?_
    exact answered (.fetchPlan baseURL name) (.error ⟨err, false⟩) (.ret _ _)
  | ok plan =>
    obtain rfl := (hr plan).mp rfl
    obtain ⟨id, htextID⟩ := htext plan hplans
    have hprinted : (plan.printed fmt).snapshotID = id := by
      rw [PeerPlan.printed, htextID, hfmt]
    by_cases hid : plan.snapshotID = utf8 cfg.snapshotID
    · have hsame : (plan.printed fmt).snapshotID = cfg.snapshotID := by
        rw [PeerPlan.printed, hid, hfmt]
      simp only [hid, ne_eq, not_true_eq_false, if_false]
      refine Proc.wp_seq (wp_any _ s₁) fun s₂ r _ => ?_
      cases r with
      | error err =>
        exact planned_of_wake hsame (answered (.newStagingDir name) (.error ⟨err, false⟩) (.ret _ _))
      | ok dir => exact fill_of_wake hsame dir
    · have hother : ((plan.printed fmt).snapshotID != cfg.snapshotID) = true := by
        rw [hprinted, bne_iff_ne]
        exact fun heq => hid (by rw [htextID, heq])
      simp only [hid, ne_eq, not_false_eq_true, if_true]
      refine answered .acquirePeerGate (.ok ()) ?_
      refine answered (.fetchPlan baseURL name) (.ok (plan.printed fmt)) ?_
      simp only [if_pos hother]
      exact .ret _ _

/-- The restore as a wake sees it, over calls that are answered anyhow, is what there is to see of
this one: where the IDs of plans are text, each of its runs is one of those and returns the same. -/
theorem restore_of_wake {s' : Staging} {r : Except String (GoString × VMSnapshot)}
    (h : Proc.Exec (Os fmt o) s (p.restore fmt marshal baseURL name cfg) s' r) :
    Proc.Exec anyAnswer () (VkCocoon.restore baseURL name cfg) () (r.map fun x => (fmt.s x.1, x.2)) := by
  have hwp : (p.restore fmt marshal baseURL name cfg).wp (Os fmt o) (OfWake fmt baseURL name cfg) s := by
    refine wp_sys fun r s₁ _ => ?_
    cases r with
    | some err => exact answered .acquirePeerGate (.error ⟨err, false⟩) (.ret _ _)
    | none => exact Proc.wp_seq (gated_of_wake hfmt htext) fun s₂ r hr => wp_sys fun _ _ _ => hr
  exact h.post hwp

end Wake

/-! ### An honest peer -/

variable {contents : GoString → List UInt8} {entries : List DirEntry}

def oneRestorer : PeerRestorer := ⟨[0x2f, 0x73]⟩
def oneConfig : SnapshotConfig := ⟨"i", "", "", ""⟩
def oneEnvelope : Marshal := fun _ _ => .ok [0x7d]
def onePlan : PeerPlan := ⟨[0x69], [⟨⟨1, [⟨0, 1⟩]⟩, [0x61]⟩]⟩
def oneDir : GoString := [0x2f, 0x73, 0x2f, 0x2d]
def oneStaged : StagedFile := ⟨[0x2f, 0x73, 0x2f, 0x2d, 0x2f, 0x61], 1, [[⟨0, 1⟩]]⟩

def onePeer : Surroundings where
  faults := False
  plans a := a = .body (.ok onePlan)
  link staged es := (fetching noVerbs).machine.Guarded (Linked [[3]]) (startFetch staged) es

def oneStart : Staging := ⟨0, {[0x2f, 0x73]}, fun _ => none, []⟩

def oneOpened : Staging :=
  Staging.write ⟨1, insert oneDir {[0x2f, 0x73]}, fun _ => none, []⟩ oneStaged.path []

def oneFilled : Staging := (oneOpened.write oneStaged.path [0]).write oneStaged.path [3]

def oneEnd : Staging := { oneFilled.write (Path.join unix [oneDir, envelopeName]) [0x7d] with held := 0 }

theorem exec_sys {α : Type} (q : OsCall) (r : OsAns q) (s' : Staging) {f : OsAns q → OsCode α} {a : α}
    (h : Os fmt o s q r s') (hk : Proc.Exec (Os fmt o) s' (f r) s'' a) :
    Proc.Exec (Os fmt o) s (sys q >>= f) s'' a :=
  .call h hk

theorem one_restore : Proc.Exec (Os noVerbs onePeer) oneStart
    (oneRestorer.restore noVerbs oneEnvelope "" "" oneConfig) oneEnd
    (.ok (oneDir, ⟨"i", "", "", "", ""⟩)) := by
  have hid : utf8 "i" = [0x69] := by decide +kernel
  have hprep : Prepared [3] oneStaged := by
    refine ⟨rfl, ⟨by decide, by decide⟩, fun i b hb _ => ?_⟩
    have hlt : i < 1 := (List.getElem?_eq_some_iff.mp hb).1
    obtain rfl : i = 0 := by omega
    exact ⟨_, List.mem_cons_self, by decide, by decide⟩
  have hfit : ∀ content ∈ [[(3 : UInt8)]], (content.length : ℤ) < 2 ^ 63 := by decide
  obtain ⟨es, c, hg, hexec, hdone⟩ := (fetching noVerbs).machine.exec_completes fetchWork
    (next_intact hfit) fetch_progress (startFetch_intact hfit (.cons hprep .nil))
  have hintact : Intact [[3]] c := (fetching noVerbs).machine.exec_invariant
    (fun c e c' hc he h => (next_intact hfit c e c' hc he h).1)
    (startFetch_intact hfit (.cons hprep .nil)) hg hexec
  have hlink : onePeer.link [oneStaged] es := (fetching noVerbs).machine.guarded_of_invariant
    (fun c e c' hc he h => (next_intact hfit c e c' hc he h).1) (fun _ _ hc he => hc.linked he)
    (startFetch_intact hfit (.cons hprep .nil)) hg
  have hchild : ∀ path, Path.Child unix oneDir path →
      path ∉ (insert oneDir {[0x2f, 0x73]} : Set GoString) := by
    rintro path hp (rfl | heq)
    · exact Path.not_child_self hp
    · obtain ⟨name, hname, rfl⟩ := hp
      have hlen := Path.length_entry (A := unix) oneDir name
      rw [Set.mem_singleton_iff.mp heq] at hlen
      simp only [oneDir, List.length_cons, List.length_nil] at hlen
      omega
  have hdir : Path.IsDir unix oneDir := ⟨rfl, by decide⟩
  have hsame : ¬onePlan.snapshotID ≠ utf8 oneConfig.snapshotID := by
    rw [not_not]
    exact hid.symm
  refine exec_sys .acquire none _ rfl ?_
  refine exec_sys (.get "" "") (.body (.ok onePlan)) _ ⟨rfl, rfl⟩ ?_
  show Proc.Exec _ _ ((if onePlan.snapshotID ≠ utf8 oneConfig.snapshotID then _ else _) >>= _) _ _
  rw [if_neg hsame]
  refine exec_sys (.mkdirAll _) none _ ⟨Or.inl rfl, rfl, rfl, rfl, fun d => ⟨id, Or.inl⟩⟩ ?_
  refine exec_sys (.mkdirTemp _ _) (.ok oneDir) _ ⟨rfl, ?_, ⟨[], fun b hb => (by cases hb), by decide⟩,
    fun path hp => ⟨fun hd => hchild path hp (Set.mem_insert_of_mem _ hd), rfl⟩⟩ ?_
  · show oneDir ∉ ({[0x2f, 0x73]} : Set GoString)
    simp [oneDir]
  refine exec_sys (.openFile _) none oneOpened ⟨?_, rfl, rfl⟩ ?_
  · exact hchild _ ⟨[0x61], ⟨by decide, by decide, by decide, by decide⟩, by decide⟩
  refine exec_sys (.truncate _ _) none (oneOpened.write oneStaged.path [0]) ⟨by decide, rfl⟩ ?_
  refine exec_sys (.fetch [oneStaged]) none oneFilled
    ⟨es, c, hexec, hlink, fun f hf => Or.inl (hdone f hf), ⟨fun _ => hdone, fun _ => rfl⟩, ?_⟩ ?_
  · rw [hintact.way.files_eq hdone]
    refine ⟨rfl, rfl, rfl, fun i f content hf hcontent => ?_, fun path hne => ?_⟩
    · have hi : i < 1 := (List.getElem?_eq_some_iff.mp hf).1
      obtain rfl : i = 0 := by omega
      cases hf
      cases hcontent
      simp only [oneFilled, Staging.write, Function.update_self]
    · simp only [oneFilled, Staging.write,
        Function.update_of_ne (Ne.symm (hne oneStaged List.mem_cons_self))]
  refine exec_sys (.writeFile _ _) none _ ⟨?_, rfl⟩ ?_
  · exact hchild _ (Path.child_join hdir envelopeName_isName)
  exact exec_sys .release () oneEnd rfl (.ret _ _)

/- The permit is back and nothing outside the staging directory has changed. -/
theorem one_restore_settles : oneEnd.held = 0 ∧ oneEnd.files [0x2f, 0x61] = none := by
  have hroot : Path.IsDir unix oneRestorer.stagingRoot := ⟨rfl, by decide⟩
  obtain ⟨hheld, -, hok⟩ := restore_settles noVerbs onePeer oneEnvelope oneRestorer "" "" oneConfig hroot
    oneStart oneEnd _ one_restore
  obtain ⟨-, -, hout, -⟩ := hok oneDir _ rfl
  refine ⟨hheld, hout [0x2f, 0x61] ?_⟩
  rintro ⟨name, -, heq⟩
  have hlen := Path.length_entry (A := unix) oneDir name
  rw [← heq] at hlen
  simp only [oneDir, List.length_cons, List.length_nil] at hlen
  omega

end VkCocoon.Peer
