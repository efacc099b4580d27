import VkCocoon.WakeSource

/-!
# A create does not boot over hibernated state

`CreatePod` from the point where no VM was found to adopt: the evidence of a
hibernated guest is looked up, the pod is marked for a restore in place, and
`bringUpVM` reads that mark again when it picks what to launch from.
-/

namespace VkCocoon
open Lib

/-- `unicode.IsSpace` -/
def isSpace (c : Char) : Bool :=
  c.toNat ∈ [0x09, 0x0A, 0x0B, 0x0C, 0x0D, 0x20, 0x85, 0xA0, 0x1680, 0x2028, 0x2029, 0x202F, 0x205F,
    0x3000] || (0x2000 ≤ c.toNat && c.toNat ≤ 0x200A)

/-- `strings.TrimSpace` -/
def trimSpace (s : String) : String :=
  String.ofList ((s.toList.dropWhile isSpace).reverse.dropWhile isSpace).reverse

def hasExplicitCloneSource (cloneFromDir forkFrom : String) : Bool :=
  trimSpace cloneFromDir != "" || forkFrom != ""

/-- A pod with the annotations that say what its VM is launched from. `modeRun` and `cloneSource`
of the pod are what the source computes from them. -/
structure BootPod where
  pod : Pod
  image : String
  mode : String
  forkFrom : String
  cloneFromDir : String
  backend : String
  forcePull : Bool
  modeRun_eq : pod.modeRun = (toLower mode == "run")
  cloneSource_eq : pod.cloneSource = hasExplicitCloneSource cloneFromDir forkFrom

/-- `meta.MarkRestoreFromHibernate` -/
def BootPod.markRestoreFromHibernate (b : BootPod) : BootPod :=
  { b with pod := { b.pod with restoreFromHibernate := true } }

/-- The evidence of a hibernated guest: whether there is a snapshot, and the image recorded with it. -/
def hibernateEvidence (d : Deps) (vmName : String) : Code (Except String (Option String)) := do
  if !d.registry then
    match ← ask (.snapshot vmName) with
    | .error e =>
      if e.notFound then return .ok none
      else return .error s!"inspect local snapshot {vmName}: {e.text}"
    | .ok _ => return .ok (some "")
  else
    match ← fetchHibernateManifest vmName with
    | .error err => return .error s!"hibernate evidence for {vmName}: {err} (refusing fresh boot)"
    | .ok none => return .ok none
    | .ok (some m) => return .ok (some m.baseImage)

/-- The result and the pod as it now reads. -/
def deriveRestoreFromEvidence (d : Deps) (b : BootPod) (marked : Bool) :
    Code (Except String (Bool × BootPod)) := do
  match ← hibernateEvidence d b.pod.spec.vmName with
  | .error err => return .error err
  | .ok none => return .ok (false, b)
  | .ok (some recordedImage) =>
    if !marked && hasExplicitCloneSource b.cloneFromDir b.forkFrom then
      return .error (s!"vm {b.pod.spec.vmName} has a hibernate snapshot but the pod requests an explicit clone source; delete the " ++
        hibernateSnapshotTag ++ " tag to discard the hibernated state")
    else if recordedImage != "" && recordedImage != b.image then
      return .error (s!"hibernate snapshot of vm {b.pod.spec.vmName} came from image " ++
        recordedImage.quote ++ " but the pod requests " ++ b.image.quote ++ "; delete the " ++
        hibernateSnapshotTag ++ " tag to discard the hibernated state")
    else if marked then return .ok (true, b)
    else return .ok (true, b.markRestoreFromHibernate)

section BringUp
/- `filepath.Clean`, and `ociutil.ParseRef` with `localSnapshotName`. -/
variable (clean : String → String) (parseRef : String → String × String)
  (localSnapshotName : String → String → String)

def annotationCloneFromDir : String := "vm.cocoonstack.io/clone-from-dir"

def parseCloneFromDirAnnotation (cloneFromDir : String) : Except String String :=
  let raw := trimSpace cloneFromDir
  if raw == "" then .ok ""
  else if !("/".toList.isPrefixOf raw.toList) then
    .error (s!"annotation {annotationCloneFromDir} must be an absolute path, got " ++ raw.quote)
  else if clean raw != raw then
    .error (s!"annotation {annotationCloneFromDir} must be a canonical path, got " ++ raw.quote ++
      " (cleaned: " ++ (clean raw).quote ++ ")")
  else .ok raw

def isHTTPURL (s : String) : Bool :=
  "http://".toList.isPrefixOf s.toList || "https://".toList.isPrefixOf s.toList

def ensureSnapshotBaseImage (snapshot : Option VMSnapshot) : Code (Except String Unit) := do
  match snapshot with
  | none => return .ok ()
  | some snapshot =>
    if snapshot.image == "" || isHTTPURL snapshot.image then return .ok ()
    else
      let present ← if snapshot.imageDigest != "" then ask (.hasImage snapshot.imageDigest)
        else pure false
      if present then return .ok ()
      else
        match ← ask (.ensureRunImage snapshot.image false) with
        | .error e => return .error s!"ensure snapshot base image {snapshot.image}: {e.text}"
        | .ok _ => return .ok ()

def assertSnapshotBackend (snapshot : Option VMSnapshot) (targetBackend : String) : Except String Unit :=
  match snapshot with
  | none => .ok ()
  | some snapshot =>
    if snapshot.hypervisor == "" || targetBackend == "" || snapshot.hypervisor == targetBackend then .ok ()
    else .error s!"snapshot {snapshot.name} was taken with {snapshot.hypervisor} but CocoonSet requests {targetBackend}"

def cloneFromHibernate (vmName : String) (src : WakeSource) : Code (Except String VM) := do
  match ← ensureSnapshotBaseImage (some src.snapshot) with
  | .error err => return .error err
  | .ok () =>
    match ← ask (.launch (.hibernate src.localName src.dir) vmName) with
    | .error e => return .error s!"clone vm {vmName} from {src.label}: {e.text}"
    | .ok v => return .ok v

/-- The `switch` of `bringUpVM`: the fork snapshot has been invalidated, nothing is restored. -/
def launchFresh (b : BootPod) (mode fromDir : String) : Code (Except String (VM × String)) := do
  let vmName := b.pod.spec.vmName
  if fromDir != "" then
    if mode == "run" then
      return .error s!"annotation {annotationCloneFromDir} is incompatible with mode=run"
    else if b.forkFrom != "" then
      return .error (s!"annotation {annotationCloneFromDir} is incompatible with fork-from " ++
        b.forkFrom.quote)
    else
      match ← ask (.launch (.fromDir fromDir) vmName) with
      | .error e => return .error s!"clone vm {vmName} from dir {fromDir}: {e.text}"
      | .ok v => return .ok (v, "")
  else if b.forkFrom != "" then
    match ← ask (.ensureForkSnapshot b.forkFrom) with
    | .error e => return .error e.text
    | .ok cloneFrom =>
      match ← ask (.launch (.fork cloneFrom) vmName) with
      | .error e => return .error s!"clone vm {vmName} from {cloneFrom}: {e.text}"
      | .ok v => return .ok (v, "")
  else if mode == "run" then
    match ← ask (.ensureRunImage b.image b.forcePull) with
    | .error e => return .error s!"ensure image {b.image}: {e.text}"
    | .ok runImage =>
      match ← ask (.launch (.run runImage) vmName) with
      | .error e => return .error s!"run vm {vmName}: {e.text}"
      | .ok v => return .ok (v, "")
  else
    let (repo, tag) := parseRef b.image
    let loc := localSnapshotName repo tag
    match ← ask (.ensureSnapshot repo tag loc) with
    | .error e => return .error s!"ensure snapshot {loc}: {e.text}"
    | .ok snapshot =>
      match assertSnapshotBackend snapshot b.backend with
      | .error err => return .error s!"clone vm {vmName} from {loc}: {err}"
      | .ok () =>
        match ← ensureSnapshotBaseImage snapshot with
        | .error err => return .error err
        | .ok () =>
          match ← ask (.launch (.image loc) vmName) with
          | .error e => return .error s!"clone vm {vmName} from {loc}: {e.text}"
          | .ok v => return .ok (v, (snapshot.map (·.image)).getD "")

/-- The record of an unmanaged pod's VM, all of it from the annotations. -/
def preassignedVM (pod : Pod) : VM where
  addr := 0
  id := pod.vmid
  name := pod.spec.vmName
  hypervisor := ""
  state := .running
  ip := pod.ip
  mac := ""
  pid := 0
  networkConfigs := []

/-- The VM and the source image. -/
def bringUpVM (d : Deps) (b : BootPod) : Code (Except String (VM × String)) := do
  let vmName := b.pod.spec.vmName
  if !b.pod.spec.managed then
    if b.pod.vmid == "" || b.pod.ip == "" then
      return .error s!"unmanaged vm {vmName} missing pre-assigned IP/VMID"
    else
      return .ok (preassignedVM b.pod, "")
  else
    match parseCloneFromDirAnnotation clean b.cloneFromDir with
    | .error err => return .error err
    | .ok fromDir =>
      if b.pod.restoreFromHibernate then
        match ← resolveWakeSource d vmName with
        | .error err => return .error err
        | .ok src =>
          match ← cloneFromHibernate vmName src with
          | .error err => return .error err
          | .ok v => return .ok (v, "")
      else
        -- a failed invalidation is logged only
        let _ ← ask (.snapshotRemoveIfExists (forkSnapshotName vmName))
        launchFresh parseRef localSnapshotName b (toLower b.mode) fromDir

/-- `CreatePod` once there is no VM to adopt: the VM, its source image, and whether it was restored. -/
def createVM (d : Deps) (b : BootPod) : Code (Except String (VM × String × Bool)) := do
  let restoring := b.pod.restoreFromHibernate
  if b.pod.spec.managed then
    match ← deriveRestoreFromEvidence d b restoring with
    | .error err => return .error err
    | .ok (derived, b) =>
      match ← bringUpVM clean parseRef localSnapshotName d b with
      | .error err => return .error err
      | .ok (v, sourceImage) => return .ok (v, sourceImage, restoring || derived)
  else
    match ← bringUpVM clean parseRef localSnapshotName d b with
    | .error err => return .error err
    | .ok (v, sourceImage) => return .ok (v, sourceImage, restoring)

end BringUp

/-! ### The calls of a create -/

/-- A call and its answer. -/
structure Exchange where
  q : Call
  r : Ans q

/-- Every call may be answered in any way; the state is the calls made so far. -/
def FreeAnswers : Proc.Answers (List Exchange) Call Ans := fun log q r log' => log' = log ++ [⟨q, r⟩]

inductive Evidence where
  | present (recordedImage : String)
  | absent
  | unavailable
deriving DecidableEq, Repr

/-- What the lookup learned, from the answer to its call. -/
def Exchange.evidence : Exchange → Option Evidence
  | ⟨.getManifest _ _, .ok (.parsed m)⟩ => some (.present m.baseImage)
  | ⟨.getManifest _ _, .ok (.garbage _)⟩ => some .unavailable
  | ⟨.getManifest _ _, .error e⟩ => some (if e.notFound then .absent else .unavailable)
  | ⟨.snapshot _, .ok _⟩ => some (.present "")
  | ⟨.snapshot _, .error e⟩ => some (if e.notFound then .absent else .unavailable)
  | _ => none

/-- The one call of the lookup. -/
def evidenceCall (d : Deps) (vmName : String) : Call :=
  if d.registry then .getManifest vmName hibernateSnapshotTag else .snapshot vmName

def LaunchSource.isHibernate : LaunchSource → Bool
  | .hibernate _ _ => true
  | _ => false

def Call.launches : Call → Option LaunchSource
  | .launch source _ => some source
  | _ => none

/-- What the mark of the pod and the evidence let a create launch from. -/
def MayLaunch (b : BootPod) (ev : Evidence) (source : LaunchSource) : Prop :=
  if source.isHibernate then
    (b.pod.restoreFromHibernate = true ∨ ∃ img, ev = .present img) ∧
    (∀ img, ev = .present img → img = "" ∨ img = b.image) ∧
    (b.pod.restoreFromHibernate = false → hasExplicitCloneSource b.cloneFromDir b.forkFrom = false)
  else b.pod.restoreFromHibernate = false ∧ ev = .absent

/-- The snapshot or directory of a restore is what `resolveWakeSource` returned in this create. -/
def Resolved (d : Deps) (vmName : String) (log : List Exchange) (source : LaunchSource) : Prop :=
  ∃ before after src, after <+: log ∧
    Proc.Exec FreeAnswers before (resolveWakeSource d vmName) after (.ok src) ∧
    source = .hibernate src.localName src.dir

/-! ### What each part launches from -/

/-- A launch is from a source in `P`. -/
def LaunchesFrom (P : LaunchSource → Prop) (q : Call) : Prop :=
  ∀ source, q.launches = some source → P source

/-- Every launch of the procedure is a restore, or none is. -/
abbrev Restores (restore : Bool) : Call → Prop := LaunchesFrom fun source => source.isHibernate = restore

theorem launchesFrom_of_not_launch {P : LaunchSource → Prop} {q : Call} (h : q.isLaunch = false) :
    LaunchesFrom P q := by
  intro source hs
  cases q
  case launch => cases h
  all_goals cases hs

theorem launchesFrom_launch {P : LaunchSource → Prop} {source : LaunchSource} (h : P source)
    (vmName : String) : LaunchesFrom P (.launch source vmName) := by
  intro source' hs
  cases hs
  exact h

theorem verifyLocalSnapshot_only (d : Deps) (vmName : String) (loc : VMSnapshot) :
    (verifyLocalSnapshot d vmName loc).Only fun q => q.readsOnly = true := by
  unfold verifyLocalSnapshot
  split
  · trivial
  · refine Proc.only_bind (Proc.Only.mono (fun _ h => h.1) (fetchHibernateManifest_only vmName)) ?_
    intro r
    cases r with
    | error err => trivial
    | ok m =>
      cases m with
      | none => trivial
      | some m =>
        refine Proc.only_bind (Proc.only_ask rfl) fun r => ?_
        cases r with
        | error e => trivial
        | ok cfg =>
          dsimp only
          split <;> trivial

theorem resolveWakeSource_only (d : Deps) (vmName : String) :
    (resolveWakeSource d vmName).Only fun q => q.isLaunch = false := by
  have hfetch : ∀ m cfg tagAbsent, (fetchWakeSource d vmName m cfg tagAbsent).Only
      fun q => q.isLaunch = false :=
    fun m cfg tagAbsent => Proc.Only.mono (fun _ h => h.2) (fetchWakeSource_only d vmName m cfg tagAbsent)
  refine Proc.only_bind (Proc.only_ask rfl) fun r => ?_
  cases r with
  | error e =>
    dsimp only
    split
    · exact hfetch none none false
    · trivial
  | ok snapshot =>
    refine Proc.only_bind (Proc.Only.mono (fun _ h => (not_removal_of_readsOnly h).2)
      (verifyLocalSnapshot_only d vmName snapshot)) ?_
    rintro ⟨m, cfg, err⟩
    cases err with
    | none => trivial
    | some e =>
      dsimp only
      split
      · exact Proc.only_bind (Proc.Only.mono (fun _ h => h.1) (removeLocalSnapshots_only vmName))
          fun _ => hfetch m cfg m.isNone
      · trivial

theorem ensureSnapshotBaseImage_only (snapshot : Option VMSnapshot) :
    (ensureSnapshotBaseImage snapshot).Only fun q => q.isLaunch = false := by
  cases snapshot with
  | none => trivial
  | some snapshot =>
    have hensure : ∀ present : Bool, (if present then return .ok () else do
        match ← ask (.ensureRunImage snapshot.image false) with
        | .error e => return .error s!"ensure snapshot base image {snapshot.image}: {e.text}"
        | .ok _ => return .ok () : Code (Except String Unit)).Only fun q => q.isLaunch = false := by
      intro present
      split
      · trivial
      · refine Proc.only_bind (Proc.only_ask rfl) fun r => ?_
        cases r <;> trivial
    unfold ensureSnapshotBaseImage
    dsimp only
    split
    · trivial
    · split
      · exact Proc.only_bind (Proc.only_ask rfl) hensure
      · exact Proc.only_bind trivial hensure

theorem cloneFromHibernate_only (vmName : String) (src : WakeSource) :
    (cloneFromHibernate vmName src).Only
      (LaunchesFrom fun source => source = .hibernate src.localName src.dir) := by
  refine Proc.only_bind (Proc.Only.mono (fun _ => launchesFrom_of_not_launch)
    (ensureSnapshotBaseImage_only (some src.snapshot))) fun r => ?_
  cases r with
  | error err => trivial
  | ok _ =>
    refine Proc.only_bind (Proc.only_ask (launchesFrom_launch (by rfl) vmName)) fun r => ?_
    cases r <;> trivial

section BringUp
variable (clean : String → String) (parseRef : String → String × String)
  (localSnapshotName : String → String → String)

theorem launchFresh_only (b : BootPod) (mode fromDir : String) :
    (launchFresh parseRef localSnapshotName b mode fromDir).Only (Restores false) := by
  unfold launchFresh
  dsimp only
  split
  · split
    · trivial
    · split
      · trivial
      · refine Proc.only_bind (Proc.only_ask (launchesFrom_launch (by rfl) _)) fun r => ?_
        cases r <;> trivial
  split
  · refine Proc.only_bind (Proc.only_ask (launchesFrom_of_not_launch rfl)) fun r => ?_
    cases r with
    | error e => trivial
    | ok cloneFrom =>
      refine Proc.only_bind (Proc.only_ask (launchesFrom_launch (by rfl) _)) fun r => ?_
      cases r <;> trivial
  split
  · refine Proc.only_bind (Proc.only_ask (launchesFrom_of_not_launch rfl)) fun r => ?_
    cases r with
    | error e => trivial
    | ok runImage =>
      refine Proc.only_bind (Proc.only_ask (launchesFrom_launch (by rfl) _)) fun r => ?_
      cases r <;> trivial
  refine Proc.only_bind (Proc.only_ask (launchesFrom_of_not_launch rfl)) fun r => ?_
  cases r with
  | error e => trivial
  | ok snapshot =>
    dsimp only
    split
    · trivial
    refine Proc.only_bind (Proc.Only.mono (fun _ => launchesFrom_of_not_launch)
      (ensureSnapshotBaseImage_only snapshot)) fun r => ?_
    cases r with
    | error err => trivial
    | ok _ =>
      refine Proc.only_bind (Proc.only_ask (launchesFrom_launch (by rfl) _)) fun r => ?_
      cases r <;> trivial

/- `bringUpVM` reads the mark and nothing else to decide whether it restores. -/
theorem bringUpVM_only (d : Deps) (b : BootPod) :
    (bringUpVM clean parseRef localSnapshotName d b).Only (Restores b.pod.restoreFromHibernate) := by
  unfold bringUpVM
  dsimp only
  split
  · split <;> trivial
  split
  · trivial
  split
  next hmark =>
    rw [hmark]
    refine Proc.only_bind (Proc.Only.mono (fun _ => launchesFrom_of_not_launch)
      (resolveWakeSource_only d _)) fun r => ?_
    cases r with
    | error err => trivial
    | ok src =>
      refine Proc.only_bind (Proc.Only.mono (fun q hq source hs => ?_) (cloneFromHibernate_only _ src))
        fun r => ?_
      · rw [hq source hs]
        rfl
      · cases r <;> trivial
  next hmark =>
    rw [Bool.not_eq_true] at hmark
    rw [hmark]
    exact Proc.only_bind (Proc.only_ask (launchesFrom_of_not_launch rfl)) fun _ =>
      launchFresh_only parseRef localSnapshotName b _ _

/-! ### The lookup -/

theorem hibernateEvidence_reads (d : Deps) (vmName : String) :
    (hibernateEvidence d vmName).wp FreeAnswers (fun log r => ∃ x, log = [x] ∧
      x.q = evidenceCall d vmName ∧ x.evidence = some (match r with
        | .error _ => .unavailable
        | .ok none => .absent
        | .ok (some img) => .present img)) [] := by
  unfold hibernateEvidence evidenceCall
  cases d.registry with
  | false =>
    apply wp_ask
    rintro r log rfl
    cases r with
    | ok snapshot => exact ⟨_, rfl, rfl, rfl⟩
    | error e =>
      dsimp only
      split
      next hnf => exact ⟨_, rfl, rfl, by simp only [Exchange.evidence, hnf, if_true]⟩
      next hnf => exact ⟨_, rfl, rfl, by simp only [Exchange.evidence, hnf]; rfl⟩
  | true =>
    refine Proc.wp_bind.mpr ?_
    apply wp_ask
    rintro r log rfl
    cases r with
    | ok raw => cases raw <;> exact ⟨_, rfl, rfl, rfl⟩
    | error e =>
      dsimp only
      split
      next hnf => exact ⟨_, rfl, rfl, by simp only [Exchange.evidence, hnf, if_true]⟩
      next hnf => exact ⟨_, rfl, rfl, by simp only [Exchange.evidence, hnf]; rfl⟩

/-- The lookup of a create, and what the pod it goes on with may then launch from. -/
structure Derived (d : Deps) (b : BootPod) (x : Exchange) (ev : Evidence)
    (r : Except String (Bool × BootPod)) : Prop where
  asked : x.q = evidenceCall d b.pod.spec.vmName
  answer : x.evidence = some ev
  refuses : ev = .unavailable → ∃ err, r = .error err
  vmName : ∀ derived b', r = .ok (derived, b') → b'.pod.spec.vmName = b.pod.spec.vmName
  allows : ∀ derived b', r = .ok (derived, b') → ∀ source : LaunchSource,
    source.isHibernate = b'.pod.restoreFromHibernate → MayLaunch b ev source

theorem deriveRestoreFromEvidence_derived (d : Deps) (b : BootPod) :
    (deriveRestoreFromEvidence d b b.pod.restoreFromHibernate).wp FreeAnswers
      (fun log r => ∃ x ev, log = [x] ∧ Derived d b x ev r) [] := by
  refine Proc.wp_seq (hibernateEvidence_reads d b.pod.spec.vmName) ?_
  rintro log r ⟨x, rfl, hq, hev⟩
  cases r with
  | error err =>
    exact ⟨x, _, rfl, hq, hev, fun _ => ⟨err, rfl⟩, fun _ _ h => (by cases h), fun _ _ h => by cases h⟩
  | ok found =>
    cases found with
    | none =>
      refine ⟨x, _, rfl, hq, hev, fun h => (by cases h), fun _ _ h => (by cases h; rfl),
        fun derived b' h source hs => ?_⟩
      cases h
      unfold MayLaunch
      cases hmark : b.pod.restoreFromHibernate with
      | true =>
        rw [hs, hmark, if_pos rfl]
        exact ⟨Or.inl rfl, fun img h => (by cases h), fun h => (by cases h)⟩
      | false =>
        rw [hs, hmark, if_neg (by decide)]
        exact ⟨rfl, rfl⟩
    | some img =>
      dsimp only
      split
      next => exact ⟨x, _, rfl, hq, hev, fun h => (by cases h), fun _ _ h => (by cases h), fun _ _ h => by cases h⟩
      next hsource =>
        split
        next => exact ⟨x, _, rfl, hq, hev, fun h => (by cases h), fun _ _ h => (by cases h), fun _ _ h => by cases h⟩
        next himg =>
          have himage : img = "" ∨ img = b.image := by
            by_cases h : img = ""
            · exact Or.inl h
            · refine Or.inr ?_
              simpa [h] using himg
          have hexplicit : b.pod.restoreFromHibernate = false →
              hasExplicitCloneSource b.cloneFromDir b.forkFrom = false := by
            intro h
            simpa [h] using hsource
          have hmay : ∀ source : LaunchSource, source.isHibernate = true →
              MayLaunch b (.present img) source := by
            intro source hs
            unfold MayLaunch
            rw [if_pos hs]
            refine ⟨Or.inr ⟨img, rfl⟩, fun img' h => ?_, hexplicit⟩
            cases h
            exact himage
          split
          next hmark =>
            refine ⟨x, _, rfl, hq, hev, fun h => (by cases h), fun _ _ h => (by cases h; rfl),
              fun derived b' h source hs => ?_⟩
            cases h
            exact hmay source (hs.trans hmark)
          next =>
            refine ⟨x, _, rfl, hq, hev, fun h => (by cases h), fun _ _ h => (by cases h; rfl),
              fun derived b' h source hs => ?_⟩
            cases h
            exact hmay source hs

/- The launches a procedure adds to the calls made so far. -/
theorem launches_wp {α : Type} {p : Code α} {P : LaunchSource → Prop} (hp : p.Only (LaunchesFrom P))
    (log : List Exchange) :
    p.wp FreeAnswers (fun log' _ => log <+: log' ∧
      ∀ e ∈ log', e ∈ log ∨ ∀ source, e.q.launches = some source → P source) log := by
  refine hp.wp ?_ ⟨List.prefix_refl log, fun e he => Or.inl he⟩
  rintro log₁ q r log₂ hq ⟨hgrow, hlog⟩ rfl
  refine ⟨hgrow.trans (List.prefix_append log₁ _), fun e he => ?_⟩
  rcases List.mem_append.mp he with hold | hnew
  · exact hlog e hold
  · rw [List.mem_singleton] at hnew
    subst hnew
    exact Or.inr hq

/-- What a restore is launched from was resolved before. -/
theorem bringUpVM_resolved (d : Deps) (b : BootPod) {log : List Exchange}
    (hnone : ∀ e ∈ log, e.q.launches = none) :
    (bringUpVM clean parseRef localSnapshotName d b).wp FreeAnswers (fun log' _ => ∀ e ∈ log',
      ∀ source, e.q.launches = some source → source.isHibernate = true →
        Resolved d b.pod.spec.vmName log' source) log := by
  have hstays : ∀ log' : List Exchange, (∀ e ∈ log', e ∈ log ∨ ∀ source, e.q.launches = some source →
      source.isHibernate = false) → ∀ e ∈ log', ∀ source, e.q.launches = some source →
        source.isHibernate = true → Resolved d b.pod.spec.vmName log' source := by
    intro log' hlog e he source hs hhib
    rcases hlog e he with hold | hnew
    · rw [hnone e hold] at hs
      cases hs
    · rw [hnew source hs] at hhib
      cases hhib
  cases hmark : b.pod.restoreFromHibernate with
  | false =>
    have honly := bringUpVM_only clean parseRef localSnapshotName d b
    rw [hmark] at honly
    exact Proc.wp_mono (fun log' _ h => hstays log' h.2) (launches_wp honly log)
  | true =>
    have hidle : ∀ {α : Type} (r : α), (pure r : Code α).wp FreeAnswers (fun log' _ => ∀ e ∈ log',
        ∀ source, e.q.launches = some source → source.isHibernate = true →
          Resolved d b.pod.spec.vmName log' source) log :=
      fun _ => hstays log fun e he => Or.inl he
    unfold bringUpVM
    dsimp only
    split
    · split <;> exact hidle _
    split
    · exact hidle _
    have hresolve := Proc.Only.mono (fun _ => launchesFrom_of_not_launch (P := fun _ => False))
      (resolveWakeSource_only d b.pod.spec.vmName)
    refine Proc.wp_seq (Proc.wp_and (launches_wp hresolve log) (Proc.wp_exec _ log)) ?_
    rintro log₁ r ⟨⟨-, hquiet⟩, hexec⟩
    have hnone₁ : ∀ e ∈ log₁, ∀ source, e.q.launches ≠ some source := by
      intro e he source hs
      rcases hquiet e he with hold | hnew
      · rw [hnone e hold] at hs
        cases hs
      · exact hnew source hs
    cases r with
    | error err => exact fun e he source hs _ => absurd hs (hnone₁ e he source)
    | ok src =>
      refine Proc.wp_seq (launches_wp (cloneFromHibernate_only _ src) log₁) ?_
      rintro log₂ r ⟨hgrow, hfrom⟩
      have hresolved : ∀ e ∈ log₂, ∀ source, e.q.launches = some source →
          source.isHibernate = true → Resolved d b.pod.spec.vmName log₂ source := by
        intro e he source hs _
        rcases hfrom e he with hold | hnew
        · exact absurd hs (hnone₁ e hold source)
        · exact ⟨log, log₁, src, hgrow, hexec, hnew source hs⟩
      cases r <;> exact hresolved

theorem evidenceCall_launches (d : Deps) (vmName : String) :
    (evidenceCall d vmName).launches = none := by
  unfold evidenceCall
  split <;> rfl

theorem createVM_launches (d : Deps) (b : BootPod) (hmanaged : b.pod.spec.managed = true) :
    (createVM clean parseRef localSnapshotName d b).wp FreeAnswers
      (fun log r => ∃ x rest ev, log = x :: rest ∧ x.q = evidenceCall d b.pod.spec.vmName ∧
        x.evidence = some ev ∧
        (∀ e ∈ log, ∀ source, e.q.launches = some source → MayLaunch b ev source ∧
          (source.isHibernate = true → Resolved d b.pod.spec.vmName log source)) ∧
        (ev = .unavailable → rest = [] ∧ ∃ err, r = .error err)) [] := by
  unfold createVM
  rw [if_pos hmanaged]
  refine Proc.wp_seq (deriveRestoreFromEvidence_derived d b) ?_
  rintro log r ⟨x, ev, rfl, hd⟩
  have hfirst : ∀ e ∈ [x], e.q.launches = none := by
    intro e he
    rw [List.mem_singleton.mp he, hd.asked]
    exact evidenceCall_launches d _
  cases r with
  | error err =>
    refine ⟨x, [], ev, rfl, hd.asked, hd.answer, fun e he source hs => ?_, fun _ => ⟨rfl, err, rfl⟩⟩
    rw [hfirst e he] at hs
    cases hs
  | ok res =>
    obtain ⟨derived, b'⟩ := res
    have hfound : ev ≠ .unavailable := by
      intro h
      obtain ⟨err, herr⟩ := hd.refuses h
      cases herr
    refine Proc.wp_seq (Proc.wp_and (launches_wp (bringUpVM_only clean parseRef localSnapshotName d b') [x])
      (bringUpVM_resolved clean parseRef localSnapshotName d b' hfirst)) ?_
    rintro log' r ⟨⟨⟨rest, rfl⟩, hlog⟩, hresolved⟩
    rw [hd.vmName derived b' rfl] at hresolved
    have hlaunches : ∀ e ∈ [x] ++ rest, ∀ source, e.q.launches = some source → MayLaunch b ev source ∧
        (source.isHibernate = true → Resolved d b.pod.spec.vmName ([x] ++ rest) source) := by
      intro e he source hs
      refine ⟨?_, hresolved e he source hs⟩
      rcases hlog e he with hold | hnew
      · rw [hfirst e hold] at hs
        cases hs
      · exact hd.allows derived b' rfl source (hnew source hs)
    cases r <;> exact ⟨x, rest, ev, rfl, hd.asked, hd.answer, hlaunches, fun h => absurd h hfound⟩

/-- A create of a managed pod first looks for a hibernated guest, and boots what the mark of the pod
and the answer allow: without an answer nothing, a fresh VM only where there is no such guest, and a
restore only from what `resolveWakeSource` returned. -/
theorem create_never_boots_over (d : Deps) (b : BootPod) (hmanaged : b.pod.spec.managed = true)
    (log : List Exchange) (res : Except String (VM × String × Bool))
    (h : Proc.Exec FreeAnswers [] (createVM clean parseRef localSnapshotName d b) log res) :
    ∃ x rest ev, log = x :: rest ∧ x.q = evidenceCall d b.pod.spec.vmName ∧
      x.evidence = some ev ∧
      (∀ e ∈ log, ∀ source, e.q.launches = some source → MayLaunch b ev source ∧
        (source.isHibernate = true → Resolved d b.pod.spec.vmName log source)) ∧
      (ev = .unavailable → (∀ e ∈ log, e.q.launches = none) ∧ ∃ err, res = .error err) := by
  obtain ⟨x, rest, ev, rfl, hq, hev, hlog, hun⟩ :=
    h.post (createVM_launches clean parseRef localSnapshotName d b hmanaged)
  refine ⟨x, rest, ev, rfl, hq, hev, hlog, fun hu => ?_⟩
  obtain ⟨rfl, herr⟩ := hun hu
  refine ⟨fun e he => ?_, herr⟩
  rw [List.mem_singleton.mp he, hq]
  exact evidenceCall_launches d _

end BringUp

/- An unmarked pod in run mode whose VM was hibernated from the image it asks for. -/
def hibernatedPod : BootPod where
  pod := samplePod
  image := "ubuntu"
  mode := "run"
  forkFrom := ""
  cloneFromDir := ""
  backend := ""
  forcePull := false
  modeRun_eq := by decide
  cloneSource_eq := by decide

def hibernatedAnswers : (q : Call) → Ans q
  | .snapshot name => .ok ⟨"sha256:a", name, "", "", ""⟩
  | .getManifest _ _ => .ok (.parsed ⟨"sha256:a", "ubuntu", ""⟩)
  | .fetchSnapshotConfig _ digest => .ok (sampleBlobs digest)
  | .launch _ _ => .ok sampleVM
  | .snapshotRemoveIfExists _ | .pullSnapshot _ _ _ _ | .acquirePeerGate | .fetchFiles _ _ _
  | .writeEnvelope _ _ _ => .ok ()
  | .peerBaseURL _ | .fetchPlan _ _ | .newStagingDir _ | .ensureRunImage _ _ | .ensureSnapshot _ _ _
  | .ensureForkSnapshot _ => .error ⟨"unreachable", false⟩
  | .removeAll _ => ()
  | .hasImage _ => false

/- The guest is restored, although the pod asks for a run. -/
theorem create_restores_hibernated : ∃ log,
    Proc.Exec FreeAnswers [] (createVM id (fun s => (s, "")) (fun s _ => s) sampleDeps hibernatedPod)
      log (.ok (sampleVM, "", true)) ∧
    log.map (fun x => x.q.launches) = [none, none, none, none, some (.hibernate "vk-a" "")] ∧
    ∀ e ∈ log, ∀ source, e.q.launches = some source →
      MayLaunch hibernatedPod (.present "ubuntu") source ∧
      (source.isHibernate = true → Resolved sampleDeps "vk-a" log source) := by
  have hexec := Proc.exec_run (W := FreeAnswers)
    (h := fun log q =>
    (hibernatedAnswers q, log ++ [(⟨q, hibernatedAnswers q⟩ : Exchange)])) (fun _ _ => rfl) []
    (createVM id (fun s => (s, "")) (fun s _ => s) sampleDeps hibernatedPod)
  obtain ⟨x, rest, ev, hlog, -, hev, hmay, -⟩ :=
    create_never_boots_over id (fun s => (s, "")) (fun s _ => s) sampleDeps hibernatedPod rfl _ _ hexec
  have hfirst := congrArg (fun l => l.head?.bind Exchange.evidence) hlog
  have hpresent : some (Evidence.present "ubuntu") = x.evidence := hfirst
  rw [hev] at hpresent
  cases hpresent
  exact ⟨_, hexec, by decide, hmay⟩

end VkCocoon
