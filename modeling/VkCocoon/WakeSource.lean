import VkCocoon.Lib.GoMap
import VkCocoon.Lib.Pool
import VkCocoon.Lib.Proc
import VkCocoon.PeerSlices
import VkCocoon.Types

/-!
# Where a wake gets its snapshot from

`resolveWakeSource` takes the local copy if the registry vouches for it, else files
of the peer the manifest names, else a pull. `hasWakeSource` is the shorter question
`updatePod` asks before it commits to a wake. Both are written as procedures over the
calls they make; an error is its text, plus what `errors.Is` is asked about it.
-/

namespace VkCocoon
open Lib

/-- The error of a call; `notFound` is `errors.Is` for the not-found error of that call. -/
structure CallError where
  text : String
  notFound : Bool
deriving DecidableEq, Repr

/-- The part of `vm.Snapshot` the modelled functions read. -/
structure VMSnapshot where
  id : String
  name : String
  image : String
  imageDigest : String
  hypervisor : String
deriving DecidableEq, Repr

structure SnapshotConfig where
  snapshotID : String
  image : String
  imageDigest : String
  hypervisor : String
deriving DecidableEq, Repr

structure OCIManifest where
  /-- the digest of the snapshot config -/
  config : String
  /-- `Annotations[manifest.AnnotationSnapshotBaseImage]` -/
  baseImage : String
  /-- `Annotations[snapshots.AnnotationFromNode]` -/
  fromNode : String
deriving DecidableEq, Repr

/-- What the registry stores under a tag: bytes that `manifest.Parse` takes or not. -/
inductive RawManifest where
  | parsed (m : OCIManifest)
  | garbage (err : String)
deriving DecidableEq, Repr

structure PeerPlan where
  snapshotID : String
  files : List (String × Peer.PeerFile)
deriving DecidableEq, Repr

/-- What a VM is launched from. -/
inductive LaunchSource where
  /-- `cloneFromHibernate`: `From` and `FromDir` -/
  | hibernate (localName dir : String)
  /-- the clone-from-dir annotation -/
  | fromDir (dir : String)
  | fork (snapshot : String)
  /-- the local snapshot of `spec.Image` -/
  | image (localName : String)
  /-- `Runtime.Run` -/
  | run (image : String)
deriving DecidableEq, Repr

/-- The calls to the runtime, the registry, the peer and the staging directory. -/
inductive Call where
  | snapshot (name : String)
  | snapshotRemoveIfExists (name : String)
  | getManifest (repo tag : String)
  | fetchSnapshotConfig (repo digest : String)
  | pullSnapshot (repo tag localName description : String)
  | peerBaseURL (node : String)
  | acquirePeerGate
  | fetchPlan (baseURL name : String)
  | newStagingDir (name : String)
  | fetchFiles (baseURL : String) (plan : PeerPlan) (dir : String)
  | writeEnvelope (dir : String) (cfg : SnapshotConfig) (name : String)
  | removeAll (dir : String)
  | hasImage (digest : String)
  | ensureRunImage (image : String) (force : Bool)
  | ensureSnapshot (repo tag localName : String)
  | ensureForkSnapshot (source : String)
  | launch (source : LaunchSource) (vmName : String)
deriving DecidableEq, Repr

abbrev Ans : Call → Type
  | .snapshot _ => Except CallError VMSnapshot
  | .snapshotRemoveIfExists _ => Except CallError Unit
  | .getManifest _ _ => Except CallError RawManifest
  | .fetchSnapshotConfig _ _ => Except CallError SnapshotConfig
  | .pullSnapshot _ _ _ _ => Except CallError Unit
  | .peerBaseURL _ => Except CallError String
  | .acquirePeerGate => Except CallError Unit
  | .fetchPlan _ _ => Except CallError PeerPlan
  | .newStagingDir _ => Except CallError String
  | .fetchFiles _ _ _ => Except CallError Unit
  | .writeEnvelope _ _ _ => Except CallError Unit
  | .removeAll _ => Unit
  | .hasImage _ => Bool
  | .ensureRunImage _ _ => Except CallError String
  | .ensureSnapshot _ _ _ => Except CallError (Option VMSnapshot)
  | .ensureForkSnapshot _ => Except CallError String
  | .launch _ _ => Except CallError VM

abbrev Code := Proc Call Ans

def ask (q : Call) : Code (Ans q) := Proc.ask q

theorem wp_ask {σ β : Type} {W : Proc.Answers σ Call Ans} {q : Call} {f : Ans q → Code β}
    {post : σ → β → Prop} {s : σ} (h : ∀ r s', W s q r s' → (f r).wp W post s') :
    (ask q >>= f).wp W post s :=
  Proc.wp_ask_bind.mpr h

def Call.isRemoval : Call → Bool
  | .snapshotRemoveIfExists _ => true
  | _ => false

def Call.isLaunch : Call → Bool
  | .launch _ _ => true
  | _ => false

/-- The call leaves the snapshot store and the VMs alone. -/
def Call.readsOnly : Call → Bool
  | .snapshotRemoveIfExists _ | .pullSnapshot _ _ _ _ | .ensureRunImage _ _ | .ensureSnapshot _ _ _
  | .ensureForkSnapshot _ | .launch _ _ => false
  | _ => true

/-- The plan whose files a call asks the peer for. -/
def Call.fetches : Call → Option PeerPlan
  | .fetchFiles _ plan _ => some plan
  | _ => none

/-- What the provider was configured with. -/
structure Deps where
  registry : Bool
  puller : Bool
  peerRestorer : Bool
  nodeName : String
  /-- `meta.HibernateImportSuffix` -/
  importSuffix : String
deriving DecidableEq, Repr

/-- `none` for `ok=false`, no such tag. -/
def fetchHibernateManifest (vmName : String) : Code (Except String (Option OCIManifest)) := do
  match ← ask (.getManifest vmName hibernateSnapshotTag) with
  | .error e =>
    if e.notFound then return .ok none
    else return .error s!"get hibernate manifest: {e.text}"
  | .ok (.garbage err) => return .error s!"parse hibernate manifest: {err}"
  | .ok (.parsed m) => return .ok (some m)

/-- An error of `verifyLocalSnapshot`; `stale` is `errors.Is` for `errStaleLocalSnapshot`. -/
structure VerifyError where
  text : String
  stale : Bool
deriving DecidableEq, Repr

def errStaleLocalSnapshot : String := "local snapshot does not match registry tag"

def verifyLocalSnapshot (d : Deps) (vmName : String) (loc : VMSnapshot) :
    Code (Option OCIManifest × Option SnapshotConfig × Option VerifyError) := do
  if !d.registry then return (none, none, none)
  else
    match ← fetchHibernateManifest vmName with
    | .error err => return (none, none, some ⟨err, false⟩)
    | .ok none =>
      return (none, none, some ⟨errStaleLocalSnapshot ++ ": no hibernate tag in registry", true⟩)
    | .ok (some m) =>
      match ← ask (.fetchSnapshotConfig vmName m.config) with
      | .error e => return (some m, none, some ⟨s!"fetch snapshot config: {e.text}", false⟩)
      | .ok cfg =>
        if cfg.snapshotID != loc.id then
          return (some m, some cfg, some ⟨errStaleLocalSnapshot ++
            s!": registry has {cfg.snapshotID}, local is {loc.id}", true⟩)
        else return (some m, some cfg, none)

def removeLocalSnapshots (vmName : String) : Code Unit := do
  if vmName == "" then return ()
  else
    -- both removals run at once and their errors are logged only
    let _ ← ask (.snapshotRemoveIfExists vmName)
    let _ ← ask (.snapshotRemoveIfExists (forkSnapshotName vmName))
    return ()

/-- The `release` of a wake source. -/
inductive Release where
  | nothing
  | removeSnapshot (name : String)
  | removeDir (dir : String)
deriving DecidableEq, Repr

structure WakeSource where
  localName : String
  dir : String
  origin : String
  snapshot : VMSnapshot
  release : Release
deriving DecidableEq, Repr

def WakeSource.label (s : WakeSource) : String := if s.localName != "" then s.localName else s.origin

/-- `Restore` once the plan is there. -/
def stageRestore (baseURL name : String) (cfg : SnapshotConfig) (plan : PeerPlan) :
    Code (Except String (String × VMSnapshot)) := do
  match ← ask (.newStagingDir name) with
  | .error e => return .error e.text
  | .ok dir =>
    match ← ask (.fetchFiles baseURL plan dir) with
    | .error e =>
      let _ ← ask (.removeAll dir)
      return .error e.text
    | .ok () =>
      match ← ask (.writeEnvelope dir cfg name) with
      | .error e =>
        let _ ← ask (.removeAll dir)
        return .error e.text
      | .ok () =>
        return .ok (dir, ⟨cfg.snapshotID, name, cfg.image, cfg.imageDigest, cfg.hypervisor⟩)

/-- `PeerRestorer.Restore`: the staged directory and the snapshot in it. -/
def restore (baseURL name : String) (cfg : SnapshotConfig) :
    Code (Except String (String × VMSnapshot)) := do
  match ← ask .acquirePeerGate with
  | .error e => return .error e.text
  | .ok () =>
    match ← ask (.fetchPlan baseURL name) with
    | .error e => return .error e.text
    | .ok plan =>
      if plan.snapshotID != cfg.snapshotID then
        return .error s!"peer has snapshot {plan.snapshotID}, registry says {cfg.snapshotID}"
      else stageRestore baseURL name cfg plan

/-- The manifest the caller holds, or the one under the tag. -/
def peerManifest (vmName : String) : Option OCIManifest → Code (Option OCIManifest)
  | some m => return some m
  | none => do
    match ← fetchHibernateManifest vmName with
    | .error _ => return none
    | .ok m => return m

def peerConfig (vmName : String) (m : OCIManifest) : Option SnapshotConfig → Code (Option SnapshotConfig)
  | some cfg => return some cfg
  | none => do
    match ← ask (.fetchSnapshotConfig vmName m.config) with
    | .error _ => return none
    | .ok cfg => return some cfg

def tryPeerRestore (d : Deps) (vmName : String) (m : Option OCIManifest)
    (cfg : Option SnapshotConfig) : Code (Option WakeSource) := do
  if !d.peerRestorer then return none
  else
    match ← peerManifest vmName m with
    | none => return none
    | some m =>
      if m.fromNode == "" || m.fromNode == d.nodeName then return none
      else
        match ← peerConfig vmName m cfg with
        | none => return none
        | some cfg =>
          match ← ask (.peerBaseURL m.fromNode) with
          | .error _ => return none
          | .ok baseURL =>
            match ← restore baseURL vmName cfg with
            | .error _ => return none
            | .ok (dir, snapshot) =>
              return some ⟨"", dir, "peer " ++ m.fromNode, snapshot, .removeDir dir⟩

def pullWakeSource (d : Deps) (vmName : String) : Code (Except String WakeSource) := do
  if !d.puller then return .error s!"wake {vmName}: no local snapshot and no puller configured"
  else
    let importName := vmName ++ d.importSuffix
    match ← ask (.pullSnapshot vmName hibernateSnapshotTag importName "") with
    | .error e => return .error s!"pull hibernation snapshot {vmName}: {e.text}"
    | .ok () =>
      match ← ask (.snapshot importName) with
      | .error e => return .error s!"inspect imported snapshot {importName}: {e.text}"
      | .ok snapshot => return .ok ⟨importName, "", "", snapshot, .removeSnapshot importName⟩

/-- `resolveWakeSource` once no local copy is left to use. -/
def fetchWakeSource (d : Deps) (vmName : String) (m : Option OCIManifest)
    (cfg : Option SnapshotConfig) (tagAbsent : Bool) : Code (Except String WakeSource) := do
  if tagAbsent then pullWakeSource d vmName
  else
    match ← tryPeerRestore d vmName m cfg with
    | some src => return .ok src
    | none => pullWakeSource d vmName

def resolveWakeSource (d : Deps) (vmName : String) : Code (Except String WakeSource) := do
  match ← ask (.snapshot vmName) with
  | .error e =>
    if e.notFound then fetchWakeSource d vmName none none false
    else return .error s!"inspect local snapshot {vmName}: {e.text}"
  | .ok snapshot =>
    match ← verifyLocalSnapshot d vmName snapshot with
    | (_, _, none) => return .ok ⟨vmName, "", "", snapshot, .nothing⟩
    | (m, cfg, some e) =>
      if e.stale then
        removeLocalSnapshots vmName
        fetchWakeSource d vmName m cfg m.isNone
      else return .error s!"verify local snapshot {vmName}: {e.text}"

def hasWakeSource (d : Deps) (spec : VMSpec) : Code (Except String Bool) := do
  if isMacosSpec spec then return .ok false
  else
    match ← ask (.snapshot spec.vmName) with
    | .ok _ => return .ok true
    | .error e =>
      if !e.notFound then return .error s!"inspect local snapshot {spec.vmName}: {e.text}"
      else if !d.puller then return .ok false
      else if !d.registry then return .ok true
      else
        match ← fetchHibernateManifest spec.vmName with
        | .error err => return .error err
        | .ok m => return .ok m.isSome

/-! ### A registry whose tag may move -/

/-- One call, with what the hibernate tag of the VM named at that moment. -/
structure Moment where
  tag : Option RawManifest
  q : Call
  r : Ans q

/-- What the last successful pull put under `name`. -/
def importStep (name : String) (acc : Option OCIManifest) : Moment → Option OCIManifest
  | ⟨some (.parsed m), .pullSnapshot _ _ localName _, .ok _⟩ => if localName = name then some m else acc
  | _ => acc

def imported (name : String) (log : List Moment) : Option OCIManifest :=
  log.foldl (importStep name) none

section Tag
variable (blobs : String → SnapshotConfig) (vmName : String)

/-- The registry answers by the tag of that moment or fails, configs are stored by their
digest, and a pull imports the snapshot the tag describes. All other answers are free, and
so is the tag at every call. -/
def Plausible (log : List Moment) (tag : Option RawManifest) : (q : Call) → Ans q → Prop
  | .getManifest repo t, r => repo = vmName → t = hibernateSnapshotTag →
    match r with
    | .ok raw => tag = some raw
    | .error e => e.notFound = true → tag = none
  | .fetchSnapshotConfig _ digest, r => ∀ cfg, r = .ok cfg → cfg = blobs digest
  | .pullSnapshot repo t _ _, r => repo = vmName → t = hibernateSnapshotTag → r = .ok () →
    ∃ m, tag = some (.parsed m)
  | .snapshot name, r => ∀ s, r = .ok s → ∀ m, imported name log = some m →
    s.id = (blobs m.config).snapshotID
  | _, _ => True

def TagAnswers : Proc.Answers (List Moment) Call Ans := fun log q r log' =>
  ∃ tag, Plausible blobs vmName log tag q r ∧ log' = log ++ [⟨tag, q, r⟩]

def TagWas (log : List Moment) (m : OCIManifest) : Prop := ∃ x ∈ log, x.tag = some (.parsed m)

/-- The tag named this snapshot at some moment of the log. -/
def Named (log : List Moment) (id : String) : Prop :=
  ∃ m, TagWas log m ∧ (blobs m.config).snapshotID = id

/-- Files are asked for only of a snapshot the tag named before. -/
def FilesNamed (log : List Moment) : Prop :=
  ∀ i x plan, log[i]? = some x → x.q.fetches = some plan → Named blobs (log.take i) plan.snapshotID

/-- The call was made and answered so. -/
def WasAnswered (log : List Moment) (q : Call) (r : Ans q) : Prop := ∃ tag, ⟨tag, q, r⟩ ∈ log

/-- The registry has no tag for the local copy, or one of another snapshot. -/
def ProvesStale (log : List Moment) : Prop :=
  ∃ loc, WasAnswered log (.snapshot vmName) (.ok loc) ∧
    ((∃ e : CallError, e.notFound = true ∧
        WasAnswered log (.getManifest vmName hibernateSnapshotTag) (.error e)) ∨
      ∃ m cfg, WasAnswered log (.getManifest vmName hibernateSnapshotTag) (.ok (.parsed m)) ∧
        WasAnswered log (.fetchSnapshotConfig vmName m.config) (.ok cfg) ∧ cfg.snapshotID ≠ loc.id)

/-- Every removal comes after the proof that the local copy is stale. -/
def Justified (log : List Moment) : Prop :=
  ∀ i x, log[i]? = some x → x.q.isRemoval = true → ProvesStale vmName (log.take i)

end Tag

/-- The first calls of `resolveWakeSource` were not answered: the inspect of the local copy, or
the registry about it. -/
def Undecided : List Moment → Bool
  | ⟨_, .snapshot _, .error e⟩ :: _ => !e.notFound
  | ⟨_, .snapshot _, .ok _⟩ :: ⟨_, .getManifest _ _, .error e⟩ :: _ => !e.notFound
  | ⟨_, .snapshot _, .ok _⟩ :: ⟨_, .getManifest _ _, .ok (.garbage _)⟩ :: _ => true
  | ⟨_, .snapshot _, .ok _⟩ :: ⟨_, .getManifest _ _, .ok (.parsed _)⟩ ::
      ⟨_, .fetchSnapshotConfig _ _, .error _⟩ :: _ => true
  | _ => false

section Fresh
variable {blobs : String → SnapshotConfig} {vmName : String} {log log' : List Moment}

theorem TagWas.mono {m : OCIManifest} (h : TagWas log m) (hle : log <+: log') : TagWas log' m := by
  obtain ⟨x, hx, ht⟩ := h
  exact ⟨x, hle.subset hx, ht⟩

theorem Named.mono {id : String} (h : Named blobs log id) (hle : log <+: log') :
    Named blobs log' id := by
  obtain ⟨m, hm, hid⟩ := h
  exact ⟨m, hm.mono hle, hid⟩

theorem WasAnswered.mono {q : Call} {r : Ans q} (h : WasAnswered log q r) (hle : log <+: log') :
    WasAnswered log' q r := by
  obtain ⟨tag, ht⟩ := h
  exact ⟨tag, hle.subset ht⟩

theorem ProvesStale.mono (h : ProvesStale vmName log) (hle : log <+: log') :
    ProvesStale vmName log' := by
  obtain ⟨loc, hloc, ⟨e, he, hm⟩ | ⟨m, cfg, hm, hc, hne⟩⟩ := h
  · exact ⟨loc, hloc.mono hle, Or.inl ⟨e, he, hm.mono hle⟩⟩
  · exact ⟨loc, hloc.mono hle, Or.inr ⟨m, cfg, hm.mono hle, hc.mono hle, hne⟩⟩

theorem Justified.snoc {x : Moment} (h : Justified vmName log)
    (hx : x.q.isRemoval = true → ProvesStale vmName log) : Justified vmName (log ++ [x]) := by
  intro i y hy hrem
  rcases Program.getElem?_snoc_cases hy with hold | ⟨rfl, rfl⟩
  · have hi : i < log.length := (List.getElem?_eq_some_iff.mp hold).1
    rw [List.take_append_of_le_length (by omega)]
    exact h i y hold hrem
  · rw [List.take_left]
    exact hx hrem

theorem grows {α : Type} (p : Code α) (log : List Moment) :
    p.wp (TagAnswers blobs vmName) (fun log' _ => log <+: log') log := by
  refine (Proc.only_true p).wp ?_ (List.prefix_refl log)
  rintro s q r s' - hs ⟨tag, -, rfl⟩
  exact hs.trans (List.prefix_append s _)

theorem FilesNamed.snoc {x : Moment} (h : FilesNamed blobs log)
    (hx : ∀ plan, x.q.fetches = some plan → Named blobs log plan.snapshotID) :
    FilesNamed blobs (log ++ [x]) := by
  intro i y plan hy hf
  rcases Program.getElem?_snoc_cases hy with hold | ⟨rfl, rfl⟩
  · have hi : i < log.length := (List.getElem?_eq_some_iff.mp hold).1
    rw [List.take_append_of_le_length (by omega)]
    exact h i y plan hold hf
  · rw [List.take_left]
    exact hx plan hf

theorem keeps_filesNamed {α : Type} {p : Code α} (hp : p.Only fun q => q.fetches = none)
    (h : FilesNamed blobs log) :
    p.wp (TagAnswers blobs vmName) (fun log' _ => FilesNamed blobs log') log := by
  refine hp.wp ?_ h
  rintro s q r s' hq hs ⟨tag, -, rfl⟩
  refine hs.snoc fun plan hf => ?_
  rw [hq] at hf
  cases hf

theorem keeps_justified {α : Type} {p : Code α} (hp : p.Only fun q => q.isRemoval = false)
    (h : Justified vmName log) :
    p.wp (TagAnswers blobs vmName) (fun log' _ => Justified vmName log') log := by
  refine hp.wp ?_ h
  rintro s q r s' hq hs ⟨tag, -, rfl⟩
  refine hs.snoc fun hrem => ?_
  rw [hq] at hrem
  cases hrem

/-! ### The parts of a wake that remove nothing -/

theorem not_removal_of_readsOnly {q : Call} (h : q.readsOnly = true) :
    q.isRemoval = false ∧ q.isLaunch = false := by
  cases q
  case snapshotRemoveIfExists | launch => cases h
  all_goals exact ⟨rfl, rfl⟩

theorem restore_only (baseURL name : String) (cfg : SnapshotConfig) :
    (restore baseURL name cfg).Only fun q => q.readsOnly = true := by
  unfold restore
  refine Proc.only_bind (Proc.only_ask rfl) fun r => ?_
  cases r with
  | error e => trivial
  | ok _ =>
    refine Proc.only_bind (Proc.only_ask rfl) fun r => ?_
    cases r with
    | error e => trivial
    | ok plan =>
      dsimp only
      split
      · trivial
      · unfold stageRestore
        refine Proc.only_bind (Proc.only_ask rfl) fun r => ?_
        cases r with
        | error e => trivial
        | ok dir =>
          refine Proc.only_bind (Proc.only_ask rfl) fun r => ?_
          cases r with
          | error e => exact Proc.only_bind (Proc.only_ask rfl) fun _ => trivial
          | ok _ =>
            refine Proc.only_bind (Proc.only_ask rfl) fun r => ?_
            cases r with
            | error e => exact Proc.only_bind (Proc.only_ask rfl) fun _ => trivial
            | ok _ => trivial

theorem fetchHibernateManifest_only (name : String) : (fetchHibernateManifest name).Only
    fun q => q.readsOnly = true ∧ q.fetches = none := by
  refine Proc.only_bind (Proc.only_ask ⟨rfl, rfl⟩) fun r => ?_
  cases r with
  | error e =>
    dsimp only
    split <;> trivial
  | ok raw => cases raw <;> trivial

theorem peerManifest_only (name : String) (m : Option OCIManifest) : (peerManifest name m).Only
    fun q => q.readsOnly = true ∧ q.fetches = none := by
  cases m with
  | some m => trivial
  | none =>
    refine Proc.only_bind (fetchHibernateManifest_only name) fun r => ?_
    cases r <;> trivial

theorem peerConfig_only (name : String) (m : OCIManifest) (cfg : Option SnapshotConfig) :
    (peerConfig name m cfg).Only
      fun q => q.readsOnly = true ∧ q.fetches = none := by
  cases cfg with
  | some cfg => trivial
  | none =>
    refine Proc.only_bind (Proc.only_ask ⟨rfl, rfl⟩) fun r => ?_
    cases r <;> trivial

theorem tryPeerRestore_only (d : Deps) (name : String) (m : Option OCIManifest)
    (cfg : Option SnapshotConfig) :
    (tryPeerRestore d name m cfg).Only fun q => q.readsOnly = true := by
  unfold tryPeerRestore
  split
  · trivial
  · refine Proc.only_bind (Proc.Only.mono (fun _ h => h.1) (peerManifest_only name m)) fun r => ?_
    cases r with
    | none => trivial
    | some m =>
      dsimp only
      split
      · trivial
      · refine Proc.only_bind (Proc.Only.mono (fun _ h => h.1) (peerConfig_only name m cfg)) fun r => ?_
        cases r with
        | none => trivial
        | some cfg =>
          refine Proc.only_bind (Proc.only_ask rfl) fun r => ?_
          cases r with
          | error e => trivial
          | ok baseURL =>
            refine Proc.only_bind (restore_only baseURL name cfg) fun r => ?_
            cases r <;> trivial

theorem pullWakeSource_only (d : Deps) (name : String) : (pullWakeSource d name).Only
    fun q => (q.isRemoval = false ∧ q.isLaunch = false) ∧ q.fetches = none := by
  unfold pullWakeSource
  split
  · trivial
  · refine Proc.only_bind (Proc.only_ask ⟨⟨rfl, rfl⟩, rfl⟩) fun r => ?_
    cases r with
    | error e => trivial
    | ok _ =>
      refine Proc.only_bind (Proc.only_ask ⟨⟨rfl, rfl⟩, rfl⟩) fun r => ?_
      cases r <;> trivial

theorem fetchWakeSource_only (d : Deps) (name : String) (m : Option OCIManifest)
    (cfg : Option SnapshotConfig) (tagAbsent : Bool) :
    (fetchWakeSource d name m cfg tagAbsent).Only
      fun q => q.isRemoval = false ∧ q.isLaunch = false := by
  have hpull : (pullWakeSource d name).Only fun q => q.isRemoval = false ∧ q.isLaunch = false :=
    Proc.Only.mono (fun _ h => h.1) (pullWakeSource_only d name)
  unfold fetchWakeSource
  split
  · exact hpull
  · refine Proc.only_bind (Proc.Only.mono (fun _ h => not_removal_of_readsOnly h)
      (tryPeerRestore_only d name m cfg)) fun r => ?_
    cases r with
    | none => exact hpull
    | some src => trivial

theorem removeLocalSnapshots_only (name : String) : (removeLocalSnapshots name).Only
    fun q => q.isLaunch = false ∧ q.fetches = none := by
  unfold removeLocalSnapshots
  split
  · trivial
  · refine Proc.only_bind (Proc.only_ask ⟨rfl, rfl⟩) fun _ => ?_
    exact Proc.only_bind (Proc.only_ask ⟨rfl, rfl⟩) fun _ => trivial

/-! ### What they bring is what the tag named -/

theorem fetchHibernateManifest_named (log : List Moment) :
    (fetchHibernateManifest vmName).wp (TagAnswers blobs vmName)
      (fun log' r => ∀ m, r = .ok (some m) → TagWas log' m) log := by
  apply wp_ask
  rintro r log' ⟨tag, hp, rfl⟩
  have htag := hp rfl rfl
  cases r with
  | error e =>
    dsimp only
    split <;> exact fun m hm => by cases hm
  | ok raw =>
    cases raw with
    | garbage err => exact fun m hm => by cases hm
    | parsed m =>
      intro m' hm
      cases hm
      exact ⟨_, List.mem_append_right _ (List.mem_singleton_self _), htag⟩

/- The staged files and the snapshot that describes them are of the config, whatever the
peer answers. -/
theorem restore_named (baseURL name : String) {cfg : SnapshotConfig}
    (hcfg : Named blobs log cfg.snapshotID) (hfiles : FilesNamed blobs log) :
    (restore baseURL name cfg).wp (TagAnswers blobs vmName)
      (fun log' r => FilesNamed blobs log' ∧ ∀ x, r = .ok x → x.2.id = cfg.snapshotID) log := by
  have hno : ∀ (log' : List Moment) (err : String), FilesNamed blobs log' →
      FilesNamed blobs log' ∧ ∀ x : String × VMSnapshot,
        (.error err : Except String (String × VMSnapshot)) = .ok x → x.2.id = cfg.snapshotID :=
    fun log' err h => ⟨h, fun x hx => by cases hx⟩
  apply wp_ask
  rintro r log₁ ⟨tag₁, -, rfl⟩
  have h₁ := hfiles.snoc (x := ⟨tag₁, .acquirePeerGate, r⟩) fun plan hf => by cases hf
  have hcfg₁ := hcfg.mono (List.prefix_append log [⟨tag₁, .acquirePeerGate, r⟩])
  cases r with
  | error e => exact hno _ _ h₁
  | ok _ =>
    apply wp_ask
    rintro r log₂ ⟨tag₂, -, rfl⟩
    have h₂ := h₁.snoc (x := ⟨tag₂, .fetchPlan baseURL name, r⟩) fun plan hf => by cases hf
    have hcfg₂ := hcfg₁.mono (List.prefix_append _ [⟨tag₂, .fetchPlan baseURL name, r⟩])
    cases r with
    | error e => exact hno _ _ h₂
    | ok plan =>
      dsimp only
      split
      next => exact hno _ _ h₂
      next heq =>
        have hid : plan.snapshotID = cfg.snapshotID := by simpa using heq
        unfold stageRestore
        apply wp_ask
        rintro r log₃ ⟨tag₃, -, rfl⟩
        have h₃ := h₂.snoc (x := ⟨tag₃, .newStagingDir name, r⟩) fun plan hf => by cases hf
        have hcfg₃ := hcfg₂.mono (List.prefix_append _ [⟨tag₃, .newStagingDir name, r⟩])
        cases r with
        | error e => exact hno _ _ h₃
        | ok dir =>
          apply wp_ask
          rintro r log₄ ⟨tag₄, -, rfl⟩
          have h₄ := h₃.snoc (x := ⟨tag₄, .fetchFiles baseURL plan dir, r⟩) fun plan' hf => by
            cases hf
            rw [hid]
            exact hcfg₃
          cases r with
          | error e =>
            apply wp_ask
            rintro r log₅ ⟨tag₅, -, rfl⟩
            exact hno _ _ (h₄.snoc fun plan hf => by cases hf)
          | ok _ =>
            apply wp_ask
            rintro r log₅ ⟨tag₅, -, rfl⟩
            have h₅ := h₄.snoc (x := ⟨tag₅, .writeEnvelope dir cfg name, r⟩) fun plan hf => by cases hf
            cases r with
            | error e =>
              apply wp_ask
              rintro r log₆ ⟨tag₆, -, rfl⟩
              exact hno _ _ (h₅.snoc fun plan hf => by cases hf)
            | ok _ =>
              refine ⟨h₅, fun x hx => ?_⟩
              cases hx
              rfl

theorem peerManifest_named {m : Option OCIManifest} {cfg : Option SnapshotConfig}
    (hm : ∀ m', m = some m' → TagWas log m')
    (hcfg : ∀ c, cfg = some c → ∃ m', m = some m' ∧ c = blobs m'.config) :
    (peerManifest vmName m).wp (TagAnswers blobs vmName)
      (fun log' r => ∀ m', r = some m' → TagWas log' m' ∧ ∀ c, cfg = some c → c = blobs m'.config)
      log := by
  cases m with
  | some m =>
    intro m' h
    cases h
    refine ⟨hm m rfl, fun c hc => ?_⟩
    obtain ⟨m', h, hc'⟩ := hcfg c hc
    cases h
    exact hc'
  | none =>
    have hnocfg : ∀ c, cfg ≠ some c := fun c hc => by
      obtain ⟨m', h, -⟩ := hcfg c hc
      cases h
    refine Proc.wp_seq (fetchHibernateManifest_named log) fun log' r hr => ?_
    cases r with
    | error err => exact fun m' h => by cases h
    | ok m =>
      intro m' h
      subst h
      exact ⟨hr m' rfl, fun c hc => absurd hc (hnocfg c)⟩

theorem peerConfig_named (m : OCIManifest) {cfg : Option SnapshotConfig}
    (hcfg : ∀ c, cfg = some c → c = blobs m.config) :
    (peerConfig vmName m cfg).wp (TagAnswers blobs vmName)
      (fun _ r => ∀ c, r = some c → c = blobs m.config) log := by
  cases cfg with
  | some c =>
    intro c' h
    cases h
    exact hcfg c rfl
  | none =>
    apply wp_ask
    rintro r log' ⟨tag, hp, rfl⟩
    cases r with
    | error e => exact fun c h => by cases h
    | ok c =>
      intro c' h
      cases h
      exact hp c rfl

theorem tryPeerRestore_named (d : Deps) {m : Option OCIManifest} {cfg : Option SnapshotConfig}
    (hm : ∀ m', m = some m' → TagWas log m')
    (hcfg : ∀ c, cfg = some c → ∃ m', m = some m' ∧ c = blobs m'.config)
    (hfiles : FilesNamed blobs log) :
    (tryPeerRestore d vmName m cfg).wp (TagAnswers blobs vmName)
      (fun log' r => FilesNamed blobs log' ∧
        ∀ src, r = some src → Named blobs log' src.snapshot.id) log := by
  have hno : ∀ log' : List Moment, FilesNamed blobs log' → FilesNamed blobs log' ∧
      ∀ src : WakeSource, none = some src → Named blobs log' src.snapshot.id :=
    fun log' h => ⟨h, fun src h => by cases h⟩
  unfold tryPeerRestore
  split
  · exact hno log hfiles
  · refine Proc.wp_seq (Proc.wp_and (peerManifest_named hm hcfg)
      (keeps_filesNamed (Proc.Only.mono (fun _ h => h.2) (peerManifest_only vmName m)) hfiles)) ?_
    rintro log₁ r ⟨hr, hfiles₁⟩
    cases r with
    | none => exact hno log₁ hfiles₁
    | some m =>
      obtain ⟨htag, hgiven⟩ := hr m rfl
      dsimp only
      split
      · exact hno log₁ hfiles₁
      · refine Proc.wp_seq (Proc.wp_and (peerConfig_named m hgiven) (Proc.wp_and (grows _ log₁)
          (keeps_filesNamed (Proc.Only.mono (fun _ h => h.2) (peerConfig_only vmName m cfg))
            hfiles₁))) ?_
        rintro log₂ r ⟨hr, hgrow, hfiles₂⟩
        cases r with
        | none => exact hno log₂ hfiles₂
        | some c =>
          have hnamed : Named blobs log₂ c.snapshotID := ⟨m, htag.mono hgrow, by rw [hr c rfl]⟩
          apply wp_ask
          rintro r log₃ ⟨tag, -, rfl⟩
          have hfiles₃ := hfiles₂.snoc (x := ⟨tag, .peerBaseURL m.fromNode, r⟩) fun plan hf => by cases hf
          have hnamed₃ := hnamed.mono (List.prefix_append log₂ [⟨tag, .peerBaseURL m.fromNode, r⟩])
          cases r with
          | error e => exact hno _ hfiles₃
          | ok baseURL =>
            refine Proc.wp_seq (Proc.wp_and (restore_named baseURL vmName hnamed₃ hfiles₃)
              (grows _ _)) ?_
            rintro log₄ r ⟨⟨hfiles₄, hsnap⟩, hgrow'⟩
            cases r with
            | error err => exact hno log₄ hfiles₄
            | ok x =>
              refine ⟨hfiles₄, fun src h => ?_⟩
              cases h
              rw [hsnap x rfl]
              exact hnamed₃.mono hgrow'

theorem pullWakeSource_named (d : Deps) (log : List Moment) :
    (pullWakeSource d vmName).wp (TagAnswers blobs vmName)
      (fun log' r => ∀ src, r = .ok src → Named blobs log' src.snapshot.id) log := by
  unfold pullWakeSource
  split
  · exact fun src h => by cases h
  · apply wp_ask
    rintro r log₁ ⟨tag, hp, rfl⟩
    cases r with
    | error e => exact fun src h => by cases h
    | ok u =>
      obtain ⟨m, rfl⟩ := hp rfl rfl rfl
      have himp : imported (vmName ++ d.importSuffix) (log ++ [⟨some (.parsed m),
          .pullSnapshot vmName hibernateSnapshotTag (vmName ++ d.importSuffix) "", .ok u⟩]) = some m := by
        simp only [imported, List.foldl_append, List.foldl_cons, List.foldl_nil, importStep, if_true]
      apply wp_ask
      rintro r log₂ ⟨tag', hp', rfl⟩
      cases r with
      | error e => exact fun src h => by cases h
      | ok snapshot =>
        intro src h
        cases h
        refine ⟨m, TagWas.mono ?_ (List.prefix_append _ _), (hp' snapshot rfl m himp).symm⟩
        exact ⟨_, List.mem_append_right _ (List.mem_singleton_self _), rfl⟩

/-! ### The whole resolution -/

/-- What holds of the calls and the result of `resolveWakeSource`. -/
structure WakeOutcome (blobs : String → SnapshotConfig) (vmName : String) (log : List Moment)
    (res : Except String WakeSource) : Prop where
  fresh : ∀ src, res = .ok src → Named blobs log src.snapshot.id
  files : FilesNamed blobs log
  refuses : Undecided log = true → (∃ err, res = .error err) ∧ ∀ x ∈ log, x.q.isRemoval = false
  justified : Justified vmName log

/-- No snapshot was removed and no file asked for yet. -/
def Quiet (log : List Moment) : Prop := ∀ x ∈ log, x.q.isRemoval = false ∧ x.q.fetches = none

theorem Quiet.justified (h : Quiet log) : Justified vmName log := by
  intro i x hx hrem
  rw [(h x (List.mem_of_getElem? hx)).1] at hrem
  cases hrem

theorem Quiet.filesNamed (h : Quiet log) : FilesNamed blobs log := by
  intro i x plan hx hf
  rw [(h x (List.mem_of_getElem? hx)).2] at hf
  cases hf

theorem Quiet.error_outcome (h : Quiet log) (err : String) :
    WakeOutcome blobs vmName log (.error err) :=
  ⟨fun src h => (by cases h), h.filesNamed, fun _ => ⟨⟨err, rfl⟩, fun x hx => (h x hx).1⟩, h.justified⟩

theorem fetchWakeSource_outcome (d : Deps) {m : Option OCIManifest} {cfg : Option SnapshotConfig}
    {tagAbsent : Bool} (hm : ∀ m', m = some m' → TagWas log m')
    (hcfg : ∀ c, cfg = some c → ∃ m', m = some m' ∧ c = blobs m'.config)
    (hfiles : FilesNamed blobs log) (hjust : Justified vmName log)
    (hdec : ∀ ext, Undecided (log ++ ext) = false) :
    (fetchWakeSource d vmName m cfg tagAbsent).wp (TagAnswers blobs vmName)
      (WakeOutcome blobs vmName) log := by
  have hpull : ∀ log', FilesNamed blobs log' → (pullWakeSource d vmName).wp (TagAnswers blobs vmName)
      (fun log' r => FilesNamed blobs log' ∧ ∀ src, r = .ok src → Named blobs log' src.snapshot.id)
      log' :=
    fun log' h => Proc.wp_and (keeps_filesNamed
      (Proc.Only.mono (fun _ h => h.2) (pullWakeSource_only d vmName)) h) (pullWakeSource_named d log')
  have hfresh : (fetchWakeSource d vmName m cfg tagAbsent).wp (TagAnswers blobs vmName)
      (fun log' r => FilesNamed blobs log' ∧ ∀ src, r = .ok src → Named blobs log' src.snapshot.id)
      log := by
    unfold fetchWakeSource
    split
    · exact hpull log hfiles
    · refine Proc.wp_seq (tryPeerRestore_named d hm hcfg hfiles) fun log' r hr => ?_
      cases r with
      | none => exact hpull log' hr.1
      | some src =>
        refine ⟨hr.1, fun src' h => ?_⟩
        cases h
        exact hr.2 src rfl
  have honly : (fetchWakeSource d vmName m cfg tagAbsent).Only fun q => q.isRemoval = false :=
    Proc.Only.mono (fun _ h => h.1) (fetchWakeSource_only d vmName m cfg tagAbsent)
  refine Proc.wp_mono ?_
    (Proc.wp_and (Proc.wp_and hfresh (keeps_justified honly hjust)) (grows _ log))
  rintro log' r ⟨⟨⟨hf, hr⟩, hj⟩, ⟨ext, rfl⟩⟩
  refine ⟨hr, hf, fun hu => ?_, hj⟩
  rw [hdec ext] at hu
  cases hu

theorem removeLocalSnapshots_justified (hstale : ProvesStale vmName log)
    (hjust : Justified vmName log) :
    (removeLocalSnapshots vmName).wp (TagAnswers blobs vmName)
      (fun log' _ => Justified vmName log') log := by
  unfold removeLocalSnapshots
  split
  · exact hjust
  · apply wp_ask
    rintro r log₁ ⟨tag, -, rfl⟩
    have hj₁ : Justified vmName (log ++ [⟨tag, .snapshotRemoveIfExists vmName, r⟩]) :=
      hjust.snoc fun _ => hstale
    apply wp_ask
    rintro r' log₂ ⟨tag', -, rfl⟩
    exact hj₁.snoc fun _ => hstale.mono (List.prefix_append _ _)

/- A local copy that the registry disowns is removed, and the wake goes on without it. -/
theorem discard_outcome (d : Deps) {m : Option OCIManifest} {cfg : Option SnapshotConfig}
    (hm : ∀ m', m = some m' → TagWas log m')
    (hcfg : ∀ c, cfg = some c → ∃ m', m = some m' ∧ c = blobs m'.config)
    (hstale : ProvesStale vmName log) (hquiet : Quiet log)
    (hdec : ∀ ext, Undecided (log ++ ext) = false) :
    (removeLocalSnapshots vmName >>= fun _ => fetchWakeSource d vmName m cfg m.isNone).wp
      (TagAnswers blobs vmName) (WakeOutcome blobs vmName) log := by
  refine Proc.wp_seq (Proc.wp_and (removeLocalSnapshots_justified hstale hquiet.justified)
    (Proc.wp_and (grows _ log) (keeps_filesNamed
      (Proc.Only.mono (fun _ h => h.2) (removeLocalSnapshots_only vmName)) hquiet.filesNamed))) ?_
  rintro log' - ⟨hjust, hgrow, hfiles⟩
  refine fetchWakeSource_outcome d (fun m' h => (hm m' h).mono hgrow) hcfg hfiles hjust ?_
  obtain ⟨ext, rfl⟩ := hgrow
  intro ext'
  rw [List.append_assoc]
  exact hdec (ext ++ ext')

/- What the registry says of a local copy decides between using, discarding and refusing it. -/
theorem verified_outcome (d : Deps) (hreg : d.registry = true) (tag : Option RawManifest)
    (loc : VMSnapshot) :
    (verifyLocalSnapshot d vmName loc >>= fun x =>
      match x with
      | (_, _, none) => return .ok ⟨vmName, "", "", loc, .nothing⟩
      | (m, cfg, some e) =>
        if e.stale then do
          removeLocalSnapshots vmName
          fetchWakeSource d vmName m cfg m.isNone
        else return .error s!"verify local snapshot {vmName}: {e.text}").wp
      (TagAnswers blobs vmName) (WakeOutcome blobs vmName) [⟨tag, .snapshot vmName, .ok loc⟩] := by
  refine Proc.wp_bind.mpr ?_
  unfold verifyLocalSnapshot
  rw [if_neg (by rw [hreg]; decide)]
  refine Proc.wp_bind.mpr ?_
  apply wp_ask
  rintro r log₂ ⟨tag₂, hp₂, rfl⟩
  have htag₂ := hp₂ rfl rfl
  have hquiet : Quiet ([(⟨tag, .snapshot vmName, .ok loc⟩ : Moment)] ++
      [⟨tag₂, .getManifest vmName hibernateSnapshotTag, r⟩]) := by
    simp [Quiet, Call.isRemoval, Call.fetches]
  cases r with
  | error e =>
    dsimp only
    split
    next hnf =>
      refine discard_outcome d (fun _ h => by cases h) (fun _ h => by cases h) ?_ hquiet ?_
      · exact ⟨loc, ⟨tag, by simp⟩, Or.inl ⟨e, hnf, tag₂, by simp⟩⟩
      · intro ext
        simp [Undecided, hnf]
    next => exact hquiet.error_outcome _
  | ok raw =>
    cases raw with
    | garbage err => exact hquiet.error_outcome _
    | parsed m =>
      apply wp_ask
      rintro r log₃ ⟨tag₃, hp₃, rfl⟩
      have hquiet₃ : Quiet ([(⟨tag, .snapshot vmName, .ok loc⟩ : Moment)] ++
          [⟨tag₂, .getManifest vmName hibernateSnapshotTag, .ok (.parsed m)⟩] ++
          [⟨tag₃, .fetchSnapshotConfig vmName m.config, r⟩]) := by
        simp [Quiet, Call.isRemoval, Call.fetches]
      have hwas : TagWas ([(⟨tag, .snapshot vmName, .ok loc⟩ : Moment)] ++
          [⟨tag₂, .getManifest vmName hibernateSnapshotTag, .ok (.parsed m)⟩] ++
          [⟨tag₃, .fetchSnapshotConfig vmName m.config, r⟩]) m :=
        ⟨⟨tag₂, .getManifest vmName hibernateSnapshotTag, .ok (.parsed m)⟩, by simp, htag₂⟩
      cases r with
      | error e => exact hquiet₃.error_outcome _
      | ok cfg =>
        have hblob : cfg = blobs m.config := hp₃ cfg rfl
        dsimp only
        split
        next hne =>
          refine discard_outcome d (fun m' h => ?_) (fun c h => ?_) ?_ hquiet₃ fun ext => rfl
          · cases h
            exact hwas
          · cases h
            exact ⟨m, rfl, hblob⟩
          · refine ⟨loc, ⟨tag, by simp⟩, Or.inr ⟨m, cfg, ⟨tag₂, by simp⟩, ⟨tag₃, by simp⟩, ?_⟩⟩
            simpa using hne
        next heq =>
          have hid : cfg.snapshotID = loc.id := by simpa using heq
          refine ⟨fun src h => ?_, hquiet₃.filesNamed, fun hu => (by cases hu), hquiet₃.justified⟩
          cases h
          exact ⟨m, hwas, by rw [← hblob]; exact hid⟩

theorem resolveWakeSource_outcome (d : Deps) (hreg : d.registry = true) :
    (resolveWakeSource d vmName).wp (TagAnswers blobs vmName) (WakeOutcome blobs vmName) [] := by
  apply wp_ask
  rintro r log₁ ⟨tag, -, rfl⟩
  rw [List.nil_append]
  cases r with
  | error e =>
    have hquiet : Quiet [(⟨tag, .snapshot vmName, .error e⟩ : Moment)] := by
      simp [Quiet, Call.isRemoval, Call.fetches]
    dsimp only
    split
    next hnf =>
      refine fetchWakeSource_outcome d (fun _ h => by cases h) (fun _ h => by cases h)
        hquiet.filesNamed hquiet.justified fun ext => ?_
      simp only [List.cons_append, List.nil_append, Undecided, hnf, Bool.not_true]
    next => exact hquiet.error_outcome _
  | ok loc => exact verified_outcome d hreg tag loc

/-- A wake goes to a snapshot the hibernate tag named at some moment of the resolution, and only files
of such a one are fetched. Where the first calls are not answered the wake fails and nothing is
removed; a local copy is removed only once it is known to be stale. -/
theorem wake_never_stale (d : Deps) (hreg : d.registry = true) (log : List Moment)
    (res : Except String WakeSource)
    (h : Proc.Exec (TagAnswers blobs vmName) [] (resolveWakeSource d vmName) log res) :
    (∀ src, res = .ok src → Named blobs log src.snapshot.id) ∧ FilesNamed blobs log ∧
    (Undecided log = true → (∃ err, res = .error err) ∧ ∀ x ∈ log, x.q.isRemoval = false) ∧
    Justified vmName log := by
  have hout := h.post (resolveWakeSource_outcome d hreg)
  exact ⟨hout.fresh, hout.files, hout.refuses, hout.justified⟩

end Fresh

/- A local copy of an older hibernate, and a registry that answers every call by one tag. -/
def sampleDeps : Deps := ⟨true, true, false, "node-a", "-import"⟩
def sampleManifest : OCIManifest := ⟨"sha256:b", "", ""⟩
def sampleBlobs (digest : String) : SnapshotConfig := ⟨digest, "", "", ""⟩

def olderCopy (log : List Moment) : (q : Call) → Ans q
  | .snapshot name =>
    match imported name log with
    | some m => .ok ⟨(sampleBlobs m.config).snapshotID, name, "", "", ""⟩
    | none => .ok ⟨"sha256:a", name, "", "", ""⟩
  | .snapshotRemoveIfExists _ | .pullSnapshot _ _ _ _ => .ok ()
  | .getManifest _ _ => .ok (.parsed sampleManifest)
  | .fetchSnapshotConfig _ digest => .ok (sampleBlobs digest)
  | .peerBaseURL _ | .acquirePeerGate | .fetchPlan _ _ | .newStagingDir _ | .fetchFiles _ _ _
  | .writeEnvelope _ _ _ | .ensureRunImage _ _ | .ensureSnapshot _ _ _ | .ensureForkSnapshot _
  | .launch _ _ => .error ⟨"unreachable", false⟩
  | .removeAll _ => ()
  | .hasImage _ => false

theorem olderCopy_plausible (log : List Moment) (q : Call) :
    TagAnswers sampleBlobs "vk-a" log q (olderCopy log q)
      (log ++ [⟨some (.parsed sampleManifest), q, olderCopy log q⟩]) := by
  refine ⟨some (.parsed sampleManifest), ?_, rfl⟩
  cases q
  case snapshot name =>
    intro s hs m hm
    simp only [olderCopy, hm, Except.ok.injEq] at hs
    rw [← hs]
  case getManifest repo t => exact fun _ _ => rfl
  case fetchSnapshotConfig repo digest =>
    intro cfg h
    exact (Except.ok.inj h).symm
  case pullSnapshot repo t name desc => exact fun _ _ _ => ⟨sampleManifest, rfl⟩
  all_goals trivial

/- The older copy is discarded and the pulled one is the one the tag names. -/
theorem wake_replaces_older_copy : ∃ log src,
    Proc.Exec (TagAnswers sampleBlobs "vk-a") [] (resolveWakeSource sampleDeps "vk-a") log (.ok src) ∧
    src.localName = "vk-a-import" ∧ Named sampleBlobs log src.snapshot.id ∧ Justified "vk-a" log := by
  have hexec := Proc.exec_run (h := fun log q =>
    (olderCopy log q, log ++ [⟨some (.parsed sampleManifest), q, olderCopy log q⟩]))
    olderCopy_plausible [] (resolveWakeSource sampleDeps "vk-a")
  have hres : ((resolveWakeSource sampleDeps "vk-a").run (fun log q =>
      (olderCopy log q, log ++ [⟨some (.parsed sampleManifest), q, olderCopy log q⟩])) []).2 =
      .ok ⟨"vk-a-import", "", "", ⟨"sha256:b", "vk-a-import", "", "", ""⟩,
        .removeSnapshot "vk-a-import"⟩ := by decide
  rw [hres] at hexec
  obtain ⟨hfresh, -, -, hjust⟩ := wake_never_stale sampleDeps rfl _ _ hexec
  exact ⟨_, _, hexec, rfl, hfresh _ rfl, hjust⟩

end VkCocoon
