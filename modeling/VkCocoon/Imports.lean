import VkCocoon.Create
import VkCocoon.Lib.SingleFlight
import VkCocoon.Reclaim

/-!
# Shared imports

`ensureSnapshot`, `ensureRunImage` and `ensureMacosImage` materialize what a VM is
launched from, and concurrent creates share one import for each name (`DoChan`).
An import removes its name first, so that what matters is that no import starts while the
name is there: other creates already hold it as their source.
-/

namespace VkCocoon
open Lib

/-- What `manifest.Classify` makes of a manifest. -/
inductive ImageKind where
  | cloudImage
  | snapshot
  | other
deriving DecidableEq, Repr

/-- The bytes of a manifest: what they parse to, and their class. -/
structure RawArtifact where
  /-- `ArtifactType` and `MediaType`, if `manifest.Parse` takes them -/
  parsed : Option (String × String)
  kind : Option ImageKind
deriving DecidableEq, Repr

/-- The constants of the manifest package. -/
structure MediaTypes where
  snapshotV2 : String
  ociIndex : String
  dockerIndex : String

inductive ImportCall where
  | snapshot (name : String)
  | getManifest (repo tag : String)
  | acquirePullGate
  | releasePullGate
  | snapshotRemoveIfExists (name : String)
  /-- `cocoon snapshot import` is started, fed, its pipe closed, and waited for -/
  | startSnapshotImport (name description : String)
  | streamSnapshot (name : String)
  | closeImporter
  | waitSnapshotImport (name : String)
  | image (name : String)
  | ensureImage (image : String) (force : Bool)
  | startImageImport (name : String)
  | streamImage (name : String)
  | waitImageImport (name : String)
  | macosImageInspect (image : String)
  | macosImagePull (image : String)
deriving DecidableEq, Repr

abbrev ImportAns : ImportCall → Type
  | .snapshot _ => Except CallError VMSnapshot
  | .getManifest _ _ => Except String RawArtifact
  | .image _ => Except CallError Unit
  | .macosImageInspect _ => Bool
  | .macosImagePull _ => Except (String × String) Unit
  | .releasePullGate => Unit
  | .acquirePullGate | .snapshotRemoveIfExists _ | .startSnapshotImport _ _ | .streamSnapshot _
  | .closeImporter | .waitSnapshotImport _ | .ensureImage _ _ | .startImageImport _ | .streamImage _
  | .waitImageImport _ => Option String

abbrev ImportCode := Proc ImportCall ImportAns

def importAsk (q : ImportCall) : ImportCode (ImportAns q) := Proc.ask q

def snapshotNeedsPullGate (types : MediaTypes) (raw : RawArtifact) : Bool :=
  match raw.parsed with
  | none => false
  | some (artifactType, mediaType) =>
    artifactType == types.snapshotV2 || mediaType == types.ociIndex || mediaType == types.dockerIndex

/-- The pipe is closed and the subprocess waited for on every path. -/
def finishImport (wait : ImportCode (Option String)) (streamErr : Option String) (streamOp : String) :
    ImportCode (Option String) := do
  match streamErr with
  | some err =>
    let _ ← importAsk .closeImporter
    let _ ← wait
    return some (streamOp ++ ": " ++ err)
  | none =>
    match ← importAsk .closeImporter with
    | some err =>
      let _ ← wait
      return some ("close importer: " ++ err)
    | none => wait

/-- `PullSnapshot` once the manifest is there and the gate is passed. -/
def importSnapshot (name description : String) : ImportCode (Option String) := do
  match ← importAsk (.snapshotRemoveIfExists name) with
  | some err => return some ("open cocoon snapshot import: " ++ err)
  | none =>
    match ← importAsk (.startSnapshotImport name description) with
    | some err => return some ("open cocoon snapshot import: " ++ err)
    | none =>
      let streamErr ← importAsk (.streamSnapshot name)
      finishImport (importAsk (.waitSnapshotImport name)) streamErr "stream snapshot"

def pullSnapshotFrom (types : MediaTypes) (repo tag localName description : String) :
    ImportCode (Option String) := do
  match ← importAsk (.getManifest repo tag) with
  | .error err => return some ("get snapshot manifest " ++ repo ++ ":" ++ tag ++ ": " ++ err)
  | .ok raw =>
    let localName := if localName = "" then repo else localName
    if snapshotNeedsPullGate types raw then
      match ← importAsk .acquirePullGate with
      | some err => return some err
      | none =>
        let r ← importSnapshot localName description
        let _ ← importAsk .releasePullGate
        return r
    else importSnapshot localName description

structure PullRequest where
  repo : String
  tag : String
  localName : String
deriving DecidableEq, Repr

/-- `ensureSnapshot` up to the flight. -/
def ensureSnapshot (puller : Bool) (q : PullRequest) :
    ImportCode (Option (Except String (Option VMSnapshot))) := do
  if q.repo = "" then return some (.ok none)
  else
    match ← importAsk (.snapshot q.localName) with
    | .ok snapshot => return some (.ok (some snapshot))
    | .error _ => if !puller then return some (.ok none) else return none

/-- The flight of `ensureSnapshot`. -/
def snapshotFlight (types : MediaTypes) (q : PullRequest) :
    ImportCode (Except String (Option VMSnapshot)) := do
  match ← importAsk (.snapshot q.localName) with
  | .ok snapshot => return .ok (some snapshot)
  | .error _ =>
    match ← pullSnapshotFrom types q.repo q.tag q.localName cloneSourceDescription with
    | some err => return .error err
    | none =>
      match ← importAsk (.snapshot q.localName) with
      | .error e => return .error ("inspect imported snapshot " ++ q.localName ++ ": " ++ e.text)
      | .ok snapshot => return .ok (some snapshot)

/-! ### Images -/

/-- What the provider was configured with, and how `ociutil.ParseRef` reads a reference. -/
structure ImageDeps where
  registry : Bool
  parseRef : String → String × String

def importImage (name : String) : ImportCode (Option String) := do
  match ← importAsk (.startImageImport name) with
  | some err => return some ("open cocoon image import: " ++ err)
  | none =>
    let streamErr ← importAsk (.streamImage name)
    finishImport (importAsk (.waitImageImport name)) streamErr "stream cloud image"

def ensureCloudImageFromRaw (name localName : String) (force : Bool) : ImportCode (Option String) := do
  let localName := if localName = "" then name else localName
  if force then importImage localName
  else
    match ← importAsk (.image localName) with
    | .ok () => return none
    | .error e =>
      if e.notFound then importImage localName
      else return some ("inspect local image " ++ localName ++ ": " ++ e.text)

/-- A reference with the error of the call that was to materialize it. -/
def orError (ref : String) : Option String → Except String String
  | none => .ok ref
  | some err => .error err

def resolveRunImage (d : ImageDeps) (image : String) (force : Bool) :
    ImportCode (Except String String) := do
  if !d.registry || isHTTPURL image then
    return orError image (← importAsk (.ensureImage image force))
  else
    match ← importAsk (.getManifest (d.parseRef image).1 (d.parseRef image).2) with
    | .error _ => return orError image (← importAsk (.ensureImage image force))
    | .ok raw =>
      match raw.kind with
      | none | some .other => return orError image (← importAsk (.ensureImage image force))
      | some .snapshot =>
        return .error ("image " ++ image ++ " is a snapshot artifact; use mode=clone instead of mode=run")
      | some .cloudImage =>
        let ref := (d.parseRef image).1 ++ ":" ++ (d.parseRef image).2
        return orError ref (← ensureCloudImageFromRaw (d.parseRef image).1 ref force)

structure ImageRequest where
  image : String
  force : Bool
deriving DecidableEq, Repr

def ImageRequest.key (q : ImageRequest) : String := if q.force then "force " ++ q.image else q.image

/-- `ensureRunImage` up to the flight. -/
def ensureRunImage (q : ImageRequest) : ImportCode (Option (Except String String)) :=
  if q.image = "" then return some (.ok q.image) else return none

/-- The flight of `ensureMacosImage`; the error of a pull has its output. -/
def macosFlight (image : String) : ImportCode (Except String String) := do
  if ← importAsk (.macosImageInspect image) then return .ok image
  else
    match ← importAsk (.macosImagePull image) with
    | .error (err, out) =>
      return .error ("macos image " ++ image.quote ++ " not materialized and pull failed: " ++ err ++ ": " ++
        trimSpace out)
    | .ok () =>
      if ← importAsk (.macosImageInspect image) then return .ok image
      else return .error ("macos image " ++ image.quote ++ " is absent after pull")

/-! ### The stores -/

structure Stores where
  snapshots : String → Option VMSnapshot
  images : Set String
  /-- how often an image was imported, or pulled by force -/
  renewals : String → ℕ
  macosImages : Set String

def Stores.put (s : Stores) (name : String) (snapshot : Option VMSnapshot) : Stores :=
  { s with snapshots := Function.update s.snapshots name snapshot }

def Stores.addImage (s : Stores) (name : String) (new : Bool) : Stores :=
  { s with
    images := insert name s.images
    renewals := if new then Function.update s.renewals name (s.renewals name + 1) else s.renewals }

/-- The subprocesses: one that fails may have done its work all the same. -/
def ImportAnswers : Proc.Answers Stores ImportCall ImportAns := fun s q r s' =>
  match q, r with
  | .snapshot name, .ok snapshot => s.snapshots name = some snapshot ∧ s' = s
  -- an inspect that fails is one of a snapshot that is not there
  | .snapshot name, .error _ => s.snapshots name = none ∧ s' = s
  | .snapshotRemoveIfExists name, none => s' = s.put name none
  | .waitSnapshotImport name, none => ∃ snapshot, s' = s.put name (some snapshot)
  | .waitSnapshotImport name, some _ => s' = s ∨ ∃ snapshot, s' = s.put name (some snapshot)
  | .image name, .ok () => name ∈ s.images ∧ s' = s
  | .ensureImage image force, none => s' = s.addImage image force
  | .ensureImage image force, some _ => s' = s ∨ s' = s.addImage image force
  | .waitImageImport name, none => s' = s.addImage name true
  | .waitImageImport name, some _ => s' = s ∨ s' = s.addImage name true
  | .macosImageInspect image, true => image ∈ s.macosImages ∧ s' = s
  | .macosImagePull image, .ok () => s' = { s with macosImages := insert image s.macosImages }
  | .macosImagePull image, .error _ => s' = s ∨ s' = { s with macosImages := insert image s.macosImages }
  | _, _ => s' = s

theorem rg_import {α : Type} {Rely Guar : Stores → Stores → Prop} {q : ImportCall}
    {f : ImportAns q → ImportCode α} {post : Stores → α → Prop} {s : Stores}
    (h : ∀ s₁, Rely s s₁ → ∀ r s₂, ImportAnswers s₁ q r s₂ →
      Guar s₁ s₂ ∧ (f r).rg ImportAnswers Rely Guar post s₂) :
    (importAsk q >>= f).rg ImportAnswers Rely Guar post s := h

/-! ### Snapshots -/

/-- The names that only clone sources have, as long as a create uses them. -/
structure SourceNames where
  names : Set String
  nonempty : "" ∉ names

/-- A request for such a name. -/
abbrev SourceRequest (mine : SourceNames) := { q : PullRequest // q.localName ∈ mine.names }

def snapshotPulls (types : MediaTypes) (puller : Bool) (mine : SourceNames) :
    SingleFlight.Service String (SourceRequest mine) (Except String (Option VMSnapshot)) ImportCall ImportAns where
  key q := q.1.localName
  ask q := ensureSnapshot puller q.1
  fly q := snapshotFlight types q.1

/-- Everybody else leaves these names alone. -/
def LeavesSources (mine : SourceNames) (s s' : Stores) : Prop :=
  ∀ name ∈ mine.names, s'.snapshots name = s.snapshots name

/-- A snapshot that is there stays. -/
def SourcesStay (mine : SourceNames) (s s' : Stores) : Prop :=
  ∀ name ∈ mine.names, ∀ x, s.snapshots name = some x → s'.snapshots name = some x

/-- A flight touches its own name only, and what is there stays. -/
def TouchesOwn (name : String) (s s' : Stores) : Prop :=
  (∀ other, other ≠ name → s'.snapshots other = s.snapshots other) ∧
    ∀ x, s.snapshots name = some x → s'.snapshots name = some x

def RelyOn (mine : SourceNames) (name : String) (s s' : Stores) : Prop :=
  name ∈ mine.names → s'.snapshots name = s.snapshots name

section Snapshots
variable {types : MediaTypes} {puller : Bool} {mine : SourceNames} {name : String} {s s' : Stores}

theorem TouchesOwn.refl (s : Stores) : TouchesOwn name s s := ⟨fun _ _ => rfl, fun _ h => h⟩

theorem touchesOwn_put (h : s.snapshots name = none) (x : Option VMSnapshot) :
    TouchesOwn name s (s.put name x) := by
  refine ⟨fun other hne => Function.update_of_ne hne _ _, fun y hy => ?_⟩
  rw [h] at hy
  cases hy

theorem put_self (x : Option VMSnapshot) : (s.put name x).snapshots name = x :=
  Function.update_self _ _ _

/- A call that changes nothing, for a flight that knows its name to be absent. -/
theorem absent_rely (hname : name ∈ mine.names) (h : s.snapshots name = none) (hs : RelyOn mine name s s') :
    s'.snapshots name = none :=
  (hs hname).trans h

abbrev flightRg (mine : SourceNames) (name : String) {α : Type} (p : ImportCode α)
    (post : Stores → α → Prop) (s : Stores) : Prop :=
  p.rg ImportAnswers (RelyOn mine name) (TouchesOwn name) post s

/- The end of an import: the name is set once and nothing else happens to it. -/
theorem finishImport_absent (hname : name ∈ mine.names) (streamErr : Option String) (op : String)
    (h : s.snapshots name = none) :
    flightRg mine name (finishImport (importAsk (.waitSnapshotImport name)) streamErr op)
      (fun _ _ => True) s := by
  have hwait : ∀ {s : Stores} (f : Option String → ImportCode (Option String)),
      (∀ r s, flightRg mine name (f r) (fun _ _ => True) s) → s.snapshots name = none →
      flightRg mine name (importAsk (.waitSnapshotImport name) >>= f) (fun _ _ => True) s := by
    intro s f hf h
    refine rg_import fun s₁ hs r s₂ hr => ?_
    have hnone := absent_rely hname h hs
    refine ⟨?_, hf r s₂⟩
    cases r with
    | none =>
      obtain ⟨x, rfl⟩ := hr
      exact touchesOwn_put hnone _
    | some e =>
      rcases hr with rfl | ⟨x, rfl⟩
      · exact TouchesOwn.refl _
      · exact touchesOwn_put hnone _
  unfold finishImport
  cases streamErr with
  | some err =>
    refine rg_import fun s₁ hs r s₂ hr => ?_
    have hsame : s₂ = s₁ := hr
    subst hsame
    exact ⟨TouchesOwn.refl _, hwait _ (fun _ _ _ _ => trivial) (absent_rely hname h hs)⟩
  | none =>
    refine rg_import fun s₁ hs r s₂ hr => ?_
    have hsame : s₂ = s₁ := hr
    subst hsame
    refine ⟨TouchesOwn.refl _, ?_⟩
    have hnone := absent_rely hname h hs
    cases r with
    | some err => exact hwait _ (fun _ _ _ _ => trivial) hnone
    | none => exact hwait .ret (fun _ _ _ _ => trivial) hnone

theorem importSnapshot_absent (hname : name ∈ mine.names) (description : String)
    (h : s.snapshots name = none) :
    flightRg mine name (importSnapshot name description) (fun _ _ => True) s := by
  refine rg_import fun s₁ hs r s₂ hr => ?_
  have h₁ := absent_rely hname h hs
  cases r with
  | some err =>
    have hsame : s₂ = s₁ := hr
    subst hsame
    exact ⟨TouchesOwn.refl _, fun _ _ => trivial⟩
  | none =>
    have hput : s₂ = s₁.put name none := hr
    subst hput
    refine ⟨touchesOwn_put h₁ none, rg_import fun s₃ hs₃ r s₄ hr => ?_⟩
    have h₃ := absent_rely hname (put_self none) hs₃
    have hsame : s₄ = s₃ := hr
    subst hsame
    refine ⟨TouchesOwn.refl _, ?_⟩
    cases r with
    | some err => exact fun _ _ => trivial
    | none =>
      refine rg_import fun s₅ hs₅ r s₆ hr => ?_
      have h₅ := absent_rely hname h₃ hs₅
      have hsame : s₆ = s₅ := hr
      subst hsame
      exact ⟨TouchesOwn.refl _, finishImport_absent hname r _ h₅⟩

theorem pullSnapshotFrom_absent (hname : name ∈ mine.names) (repo tag description : String)
    (h : s.snapshots name = none) :
    flightRg mine name (pullSnapshotFrom types repo tag name description) (fun _ _ => True) s := by
  have hne : name ≠ "" := fun heq => mine.nonempty (heq ▸ hname)
  refine rg_import fun s₁ hs r s₂ hr => ?_
  have h₁ := absent_rely hname h hs
  have hsame : s₂ = s₁ := by cases r <;> exact hr
  subst hsame
  refine ⟨TouchesOwn.refl _, ?_⟩
  cases r with
  | error err => exact fun _ _ => trivial
  | ok raw =>
    simp only [if_neg hne]
    cases snapshotNeedsPullGate types raw with
    | false => exact importSnapshot_absent hname description h₁
    | true =>
      refine rg_import fun s₃ hs₃ r s₄ hr => ?_
      have h₃ := absent_rely hname h₁ hs₃
      have hsame : s₄ = s₃ := hr
      subst hsame
      refine ⟨TouchesOwn.refl _, ?_⟩
      cases r with
      | some err => exact fun _ _ => trivial
      | none =>
        refine Proc.rg_seq (fun _ _ => rfl) (importSnapshot_absent hname description h₃) ?_
        intro s₅ r _
        refine rg_import fun s₆ _ u s₇ hr => ?_
        have hsame : s₇ = s₆ := hr
        subst hsame
        exact ⟨TouchesOwn.refl _, fun _ _ => trivial⟩

/-- What a result of `ensureSnapshot` says about the store. -/
def ResultPresent (mine : SourceNames) (name : String) (s : Stores) (r : Except String (Option VMSnapshot)) :
    Prop :=
  name ∈ mine.names → ∀ x, r = .ok (some x) → s.snapshots name = some x

theorem resultPresent_error (err : String) : ResultPresent mine name s (.error err) :=
  fun _ _ heq => by cases heq

/- An inspect that succeeds is the result. -/
theorem present_rg {x : VMSnapshot} (h : s.snapshots name = some x) :
    flightRg mine name (pure (.ok (some x)) : ImportCode (Except String (Option VMSnapshot)))
      (ResultPresent mine name) s := by
  intro s' hs hname y heq
  cases heq
  rw [hs hname]
  exact h

theorem snapshotFlight_rg (q : SourceRequest mine) (s : Stores) :
    flightRg mine q.1.localName (snapshotFlight types q.1) (ResultPresent mine q.1.localName) s := by
  refine rg_import fun s₁ _ r s₂ hr => ?_
  cases r with
  | ok x =>
    obtain ⟨hx, rfl⟩ := hr
    exact ⟨TouchesOwn.refl _, present_rg hx⟩
  | error e =>
    obtain ⟨habsent, rfl⟩ := hr
    refine ⟨TouchesOwn.refl _, Proc.rg_seq (fun _ _ => rfl)
      (pullSnapshotFrom_absent q.2 q.1.repo q.1.tag _ habsent) fun s₃ r _ => ?_⟩
    cases r with
    | some err => exact fun _ _ => resultPresent_error err
    | none =>
      refine rg_import fun s₄ _ r s₅ hr => ?_
      cases r with
      | ok x =>
        obtain ⟨hx, rfl⟩ := hr
        exact ⟨TouchesOwn.refl _, present_rg hx⟩
      | error e =>
        obtain ⟨-, rfl⟩ := hr
        exact ⟨TouchesOwn.refl _, fun _ _ => resultPresent_error _⟩

theorem SourcesStay.refl (s : Stores) : SourcesStay mine s s := fun _ _ _ h => h

theorem ResultPresent.stays {r : Except String (Option VMSnapshot)} (hs : SourcesStay mine s s')
    (h : ResultPresent mine name s r) : ResultPresent mine name s' r :=
  fun hname x heq => hs name hname x (h hname x heq)

theorem ensureSnapshot_rg (q : SourceRequest mine) (s : Stores) :
    (ensureSnapshot puller q.1).rg ImportAnswers (SourcesStay mine)
      (fun s s' => SourcesStay mine s s' ∧ ∀ name, RelyOn mine name s s')
      (fun s o => ∀ r, o = some r → ResultPresent mine q.1.localName s r) s := by
  have hquiet : ∀ s : Stores, SourcesStay mine s s ∧ ∀ name, RelyOn mine name s s :=
    fun s => ⟨SourcesStay.refl s, fun _ _ => rfl⟩
  have hnone : ∀ s : Stores, ResultPresent mine q.1.localName s (.ok none) :=
    fun _ _ _ heq => by cases heq
  unfold ensureSnapshot
  split
  · intro s' _ r heq
    cases heq
    exact hnone s'
  · refine rg_import fun s₁ _ r s₂ hr => ?_
    cases r with
    | ok x =>
      obtain ⟨hx, rfl⟩ := hr
      refine ⟨hquiet _, fun s' hs r heq => ?_⟩
      cases heq
      refine ResultPresent.stays hs fun _ y hy => ?_
      cases hy
      exact hx
    | error e =>
      obtain ⟨-, rfl⟩ := hr
      refine ⟨hquiet _, ?_⟩
      cases puller with
      | false =>
        intro s' _ r heq
        cases heq
        exact hnone s'
      | true => exact fun _ _ _ heq => by cases heq

def snapshotContract (types : MediaTypes) (puller : Bool) (mine : SourceNames) :
    SingleFlight.Contract (snapshotPulls types puller mine) ImportAnswers (LeavesSources mine) where
  rely := RelyOn mine
  guar := TouchesOwn
  any := SourcesStay mine
  post name _ := ResultPresent mine name
  own := ResultPresent mine
  rely_refl _ _ _ := rfl
  rely_trans _ _ _ _ h h' hname := (h' hname).trans (h hname)
  any_refl := SourcesStay.refl
  any_trans _ _ _ h h' name hname x hx := h' name hname x (h name hname x hx)
  guar_rely k k' _ _ hne h _ := h.1 k' (Ne.symm hne)
  guar_any k _ _ h name _ x hx := by
    by_cases hk : name = k
    · subst hk
      exact h.2 x hx
    · rw [h.1 name hk]
      exact hx
  env_rely k _ _ h hname := h k hname
  env_any _ _ h name hname x hx := by
    rw [h name hname]
    exact hx
  post_any _ _ _ _ _ hs h := h.stays hs
  own_any _ _ _ _ hs h := h.stays hs
  fly := snapshotFlight_rg
  ask := ensureSnapshot_rg

theorem got_present {st : SingleFlight.State Stores (SourceRequest mine) (Except String (Option VMSnapshot))
    ImportCall ImportAns} (h : SingleFlight.Good (snapshotContract types puller mine) st)
    {c : SingleFlight.Caller (SourceRequest mine) (Except String (Option VMSnapshot)) ImportCall ImportAns}
    (hc : c ∈ st.callers) {flight : Option ℕ} {x : VMSnapshot} (hpc : c.pc = .got flight (.ok (some x))) :
    st.shared.snapshots c.req.1.localName = some x := by
  cases flight with
  | none => exact h.answered c hc _ hpc c.req.2 x rfl
  | some j =>
    obtain ⟨_, _, _, hpresent⟩ := h.got c hc j _ hpc
    exact hpresent c.req.2 x rfl

end Snapshots

/-- However the creates of a node interleave and give up: no two imports of one name run at once,
a clone source that is there is never replaced, and the snapshot a create got is the one in the
store. So all creates from one source get the same snapshot. -/
theorem clone_sources_imported_once (types : MediaTypes) (puller : Bool) (mine : SourceNames)
    (s : Stores) (st st' : SingleFlight.State Stores (SourceRequest mine) (Except String (Option VMSnapshot))
      ImportCall ImportAns)
    (hrun : Relation.ReflTransGen (SingleFlight.Step (snapshotPulls types puller mine) ImportAnswers
      (LeavesSources mine)) (.start s) st)
    (hrun' : Relation.ReflTransGen (SingleFlight.Step (snapshotPulls types puller mine) ImportAnswers
      (LeavesSources mine)) st st') :
    (∀ (i j : ℕ) f g, st.flights[i]? = some f → st.flights[j]? = some g → f.Running → g.Running →
      f.req.1.localName = g.req.1.localName → i = j) ∧
    (∀ name ∈ mine.names, ∀ x, st.shared.snapshots name = some x → st'.shared.snapshots name = some x) ∧
    (∀ c ∈ st.callers, ∀ i x, c.pc = .got i (.ok (some x)) →
      st'.shared.snapshots c.req.1.localName = some x) ∧
    ∀ c ∈ st.callers, ∀ d ∈ st'.callers, ∀ i j x y, c.pc = .got i (.ok (some x)) →
      d.pc = .got j (.ok (some y)) → c.req.1.localName = d.req.1.localName → x = y := by
  have hgood := (SingleFlight.run_good
    (SingleFlight.good_start (snapshotContract types puller mine) s) hrun).1
  obtain ⟨hgood', hstay⟩ := SingleFlight.run_good hgood hrun'
  have hlater : ∀ c ∈ st.callers, ∀ i x, c.pc = .got i (.ok (some x)) →
      st'.shared.snapshots c.req.1.localName = some x := by
    intro c hc i x hpc
    exact hstay _ c.req.2 x (got_present hgood hc hpc)
  refine ⟨hgood.single, hstay, hlater, fun c hc d hd i j x y hx hy hkey => ?_⟩
  have hcx := hlater c hc i x hx
  have hdy := got_present hgood' hd hy
  rw [hkey, hdy] at hcx
  exact (Option.some.inj hcx).symm

/-! A create that imports its source while another one waits for it. -/

def cloneSource : VMSnapshot := ⟨"id", "img", "", "", ""⟩
def cloneTypes : MediaTypes := ⟨"v2", "oci", "docker"⟩
def cloneNames : SourceNames := ⟨{"img"}, by simp⟩
def cloneRequest : SourceRequest cloneNames := ⟨⟨"img", "", "img"⟩, rfl⟩
def emptyStores : Stores := ⟨fun _ => none, ∅, fun _ => 0, ∅⟩

section Steps
variable {κ Req ρ : Type} {S : SingleFlight.Service κ Req ρ ImportCall ImportAns} {E : Stores → Stores → Prop}
  {st : SingleFlight.State Stores Req ρ ImportCall ImportAns} {q : Req}

/- One step of a caller or of a flight, with the call it makes. -/
theorem import_ask (i : ℕ) (x : ImportCall) (r : ImportAns x) (s' : Stores)
    {k : ImportAns x → ImportCode (Option ρ)} (h : st.callers[i]? = some ⟨q, .asking (.call x k)⟩)
    (hW : ImportAnswers st.shared x r s') : SingleFlight.Step S ImportAnswers E st
      { st with shared := s', callers := st.callers.set i ⟨q, .asking (k r)⟩ } :=
  .ask h hW

theorem import_work (j : ℕ) (x : ImportCall) (r : ImportAns x) (s' : Stores) {s₀ : Stores}
    {k : ImportAns x → ImportCode ρ} (h : st.flights[j]? = some ⟨q, s₀, .running (.call x k)⟩)
    (hW : ImportAnswers st.shared x r s') : SingleFlight.Step S ImportAnswers E st
      { st with shared := s', flights := st.flights.set j ⟨q, s₀, .running (k r)⟩ } :=
  .work h hW

end Steps

def clonedStores : Stores := (emptyStores.put "img" none).put "img" (some cloneSource)

theorem two_clones_run : ∃ st : SingleFlight.State Stores (SourceRequest cloneNames)
      (Except String (Option VMSnapshot)) ImportCall ImportAns, Relation.ReflTransGen
    (SingleFlight.Step (snapshotPulls cloneTypes true cloneNames) ImportAnswers (LeavesSources cloneNames))
    (.start emptyStores) st ∧ st.shared = clonedStores ∧
    st.callers = [⟨cloneRequest, .got (some 0) (.ok (some cloneSource))⟩, ⟨cloneRequest, .waiting 0⟩] := by
  have hput : clonedStores.snapshots "img" = some cloneSource := put_self _
  refine ⟨_, .head (.arrive cloneRequest) (.head (.arrive cloneRequest)
    (.head (import_ask 0 (.snapshot "img") (.error ⟨"", true⟩) emptyStores rfl ⟨rfl, rfl⟩)
    (.head (import_ask 1 (.snapshot "img") (.error ⟨"", true⟩) emptyStores rfl ⟨rfl, rfl⟩)
    (.head (.lead (i := 0) rfl (fun f hf => by cases hf))
    (.head (.join (i := 1) (j := 0) rfl rfl ⟨_, rfl⟩ rfl)
    (.head (import_work 0 (.snapshot "img") (.error ⟨"", true⟩) emptyStores rfl ⟨rfl, rfl⟩)
    (.head (import_work 0 (.getManifest "img" "") (.ok ⟨none, none⟩) emptyStores rfl rfl)
    (.head (import_work 0 (.snapshotRemoveIfExists "img") none _ rfl rfl)
    (.head (import_work 0 (.startSnapshotImport "img" cloneSourceDescription) none _ rfl rfl)
    (.head (import_work 0 (.streamSnapshot "img") none _ rfl rfl)
    (.head (import_work 0 .closeImporter none _ rfl rfl)
    (.head (import_work 0 (.waitSnapshotImport "img") none clonedStores rfl ⟨cloneSource, rfl⟩)
    (.head (import_work 0 (.snapshot "img") (.ok cloneSource) clonedStores rfl ⟨hput, rfl⟩)
    (.head (.land (j := 0) rfl) (.head (.take (i := 0) (j := 0) rfl rfl) .refl))))))))))))))), rfl, rfl⟩

/- The one that still waits will get what the other has. -/
theorem two_clones_one_import : ∃ st : SingleFlight.State Stores (SourceRequest cloneNames)
      (Except String (Option VMSnapshot)) ImportCall ImportAns, Relation.ReflTransGen
    (SingleFlight.Step (snapshotPulls cloneTypes true cloneNames) ImportAnswers (LeavesSources cloneNames))
    (.start emptyStores) st ∧
    st.callers = [⟨cloneRequest, .got (some 0) (.ok (some cloneSource))⟩, ⟨cloneRequest, .waiting 0⟩] ∧
    st.shared.snapshots "img" = some cloneSource := by
  obtain ⟨st, hrun, -, hcallers⟩ := two_clones_run
  have hmem : ⟨cloneRequest, .got (some 0) (.ok (some cloneSource))⟩ ∈ st.callers := by
    rw [hcallers]
    exact List.mem_cons_self
  exact ⟨st, hrun, hcallers,
    (clone_sources_imported_once cloneTypes true cloneNames emptyStores st st hrun .refl).2.2.1 _ hmem
      (some 0) cloneSource rfl⟩

/-! ### Images for `vm run` -/

/-- Images are added only. -/
structure Grows (s s' : Stores) : Prop where
  images : s.images ⊆ s'.images
  renewals : s.renewals ≤ s'.renewals
  macosImages : s.macosImages ⊆ s'.macosImages

theorem Grows.refl (s : Stores) : Grows s s := ⟨subset_rfl, le_rfl, subset_rfl⟩

theorem Grows.trans {s s' s'' : Stores} (h : Grows s s') (h' : Grows s' s'') : Grows s s'' :=
  ⟨h.images.trans h'.images, h.renewals.trans h'.renewals, h.macosImages.trans h'.macosImages⟩

theorem grows_addImage (s : Stores) (name : String) (new : Bool) : Grows s (s.addImage name new) := by
  refine ⟨Set.subset_insert _ _, ?_, subset_rfl⟩
  cases new with
  | false => exact le_rfl
  | true => exact le_update_self_iff.mpr (Nat.le_succ _)

/- No call takes an image away. -/
theorem grows_of_answers {s s' : Stores} {q : ImportCall} {r : ImportAns q} (h : ImportAnswers s q r s') :
    Grows s s' := by
  cases q with
  | snapshot name => cases r <;> exact h.2 ▸ Grows.refl s
  | getManifest repo tag => cases r <;> exact (show s' = s from h) ▸ Grows.refl s
  | acquirePullGate | startSnapshotImport | streamSnapshot | closeImporter | startImageImport | streamImage =>
    cases r <;> exact (show s' = s from h) ▸ Grows.refl s
  | releasePullGate => exact (show s' = s from h) ▸ Grows.refl s
  | snapshotRemoveIfExists name =>
    cases r with
    | none => exact (show s' = s.put name none from h) ▸ ⟨subset_rfl, le_rfl, subset_rfl⟩
    | some e => exact (show s' = s from h) ▸ Grows.refl s
  | waitSnapshotImport name =>
    cases r with
    | none =>
      obtain ⟨x, rfl⟩ := h
      exact ⟨subset_rfl, le_rfl, subset_rfl⟩
    | some e =>
      rcases h with rfl | ⟨x, rfl⟩
      · exact Grows.refl _
      · exact ⟨subset_rfl, le_rfl, subset_rfl⟩
  | image name =>
    cases r with
    | ok u => exact h.2 ▸ Grows.refl s
    | error e => exact (show s' = s from h) ▸ Grows.refl s
  | ensureImage image force =>
    cases r with
    | none => exact (show s' = s.addImage image force from h) ▸ grows_addImage s image force
    | some e =>
      rcases h with rfl | rfl
      · exact Grows.refl _
      · exact grows_addImage s image force
  | waitImageImport name =>
    cases r with
    | none => exact (show s' = s.addImage name true from h) ▸ grows_addImage s name true
    | some e =>
      rcases h with rfl | rfl
      · exact Grows.refl _
      · exact grows_addImage s name true
  | macosImageInspect image =>
    cases r with
    | false => exact (show s' = s from h) ▸ Grows.refl s
    | true => exact h.2 ▸ Grows.refl s
  | macosImagePull image =>
    cases r with
    | ok u =>
      have hs : s' = { s with macosImages := insert image s.macosImages } := h
      exact hs ▸ ⟨subset_rfl, le_rfl, Set.subset_insert _ _⟩
    | error e =>
      rcases h with rfl | rfl
      · exact Grows.refl _
      · exact ⟨subset_rfl, le_rfl, Set.subset_insert _ _⟩

abbrev growRg {α : Type} (p : ImportCode α) (post : Stores → α → Prop) (s : Stores) : Prop :=
  p.rg ImportAnswers Grows Grows post s

/- A call of a flight that took off in `s₀`. -/
theorem grow_import {α : Type} {q : ImportCall} {f : ImportAns q → ImportCode α}
    {post : Stores → α → Prop} {s₀ s : Stores} (h₀ : Grows s₀ s)
    (h : ∀ r s₁ s₂, Grows s₀ s₁ → ImportAnswers s₁ q r s₂ → Grows s₀ s₂ → growRg (f r) post s₂) :
    growRg (importAsk q >>= f) post s := by
  refine rg_import fun s₁ hs r s₂ hr => ?_
  have hanswer := grows_of_answers hr
  have h₁ := h₀.trans hs
  exact ⟨hanswer, h r s₁ s₂ h₁ hr (h₁.trans hanswer)⟩

/-- An image reference with a space in it is none, so that no reference looks like a forced one. -/
abbrev RunRequest := { q : ImageRequest // hasPrefix q.image "force " = false }

def runImages (d : ImageDeps) :
    SingleFlight.Service String RunRequest (Except String String) ImportCall ImportAns where
  key q := q.1.key
  ask q := ensureRunImage q.1
  fly q := resolveRunImage d q.1.image q.1.force

/-- The reference under which a cloud image is imported. -/
def ImageDeps.localRef (d : ImageDeps) (image : String) : String :=
  (d.parseRef image).1 ++ ":" ++ (d.parseRef image).2

/-- The reference can be booted: it is in the store, and if that was asked for it was renewed since
the flight took off in `s₀`. -/
structure Bootable (d : ImageDeps) (q : ImageRequest) (s₀ s : Stores) (ref : String) : Prop where
  name : ref = q.image ∨ ref = d.localRef q.image
  present : q.image ≠ "" → ref ∈ s.images
  renewed : q.image ≠ "" → q.force = true → s₀.renewals ref < s.renewals ref

def ImageResult (d : ImageDeps) (q : ImageRequest) (s₀ s : Stores) (r : Except String String) : Prop :=
  ∀ ref, r = .ok ref → Bootable d q s₀ s ref

section Images
variable {d : ImageDeps} {q : ImageRequest} {s₀ s s' : Stores} {name : String}

theorem Bootable.grows (h : Bootable d q s₀ s name) (hs : Grows s s') : Bootable d q s₀ s' name :=
  ⟨h.name, fun hi => hs.images (h.present hi),
    fun hi hf => Nat.lt_of_lt_of_le (h.renewed hi hf) (hs.renewals name)⟩

theorem imageResult_error (err : String) : ImageResult d q s₀ s (.error err) := fun _ heq => by cases heq

theorem imageResult_rg {r : Except String String} (h : ImageResult d q s₀ s r) :
    growRg (pure r : ImportCode (Except String String)) (ImageResult d q s₀) s :=
  fun _ hs ref heq => (h ref heq).grows hs

/-- What a call that is to materialize an image says about the store. -/
def Materialized (name : String) (new : Bool) (s₀ s : Stores) (r : Option String) : Prop :=
  r = none → name ∈ s.images ∧ (new = true → s₀.renewals name < s.renewals name)

theorem materialized_addImage (h : Grows s₀ s) (new : Bool) (r : Option String) :
    Materialized name new s₀ (s.addImage name new) r := by
  refine fun _ => ⟨Set.mem_insert _ _, fun hnew => ?_⟩
  subst hnew
  have hcount : (s.addImage name true).renewals name = s.renewals name + 1 := Function.update_self _ _ _
  rw [hcount]
  exact Nat.lt_succ_of_le (h.renewals name)

theorem Materialized.grows {new : Bool} {r : Option String} (h : Materialized name new s₀ s r)
    (hs : Grows s s') : Materialized name new s₀ s' r :=
  fun heq => ⟨hs.images (h heq).1, fun hnew => Nat.lt_of_lt_of_le ((h heq).2 hnew) (hs.renewals name)⟩

theorem orError_rg {r : Option String} (href : name = q.image ∨ name = d.localRef q.image)
    (h : Materialized name q.force s₀ s r) :
    growRg (pure (orError name r) : ImportCode (Except String String)) (ImageResult d q s₀) s := by
  refine imageResult_rg fun ref heq => ?_
  cases r with
  | some err => cases heq
  | none =>
    cases heq
    obtain ⟨hin, hnew⟩ := h rfl
    exact ⟨href, fun _ => hin, fun _ => hnew⟩

theorem ensureImage_rg (h₀ : Grows s₀ s) (hq : q.image = name) :
    growRg (do return orError name (← importAsk (.ensureImage name q.force))) (ImageResult d q s₀) s := by
  refine grow_import h₀ fun r s₁ s₂ h₁ hr _ => orError_rg (Or.inl hq.symm) fun hnone => ?_
  subst hnone
  have hs : s₂ = s₁.addImage name q.force := hr
  subst hs
  exact materialized_addImage h₁ q.force none rfl

theorem importImage_rg (h₀ : Grows s₀ s) : growRg (importImage name) (Materialized name true s₀) s := by
  have hwait : ∀ {s : Stores} (f : Option String → ImportCode (Option String)), Grows s₀ s →
      (∀ r s, Materialized name true s₀ s r → growRg (f r) (Materialized name true s₀) s) →
      growRg (importAsk (.waitImageImport name) >>= f) (Materialized name true s₀) s := by
    intro s f h₀ hf
    refine grow_import h₀ fun r s₁ s₂ h₁ hr _ => hf r s₂ fun hnone => ?_
    subst hnone
    have hs : s₂ = s₁.addImage name true := hr
    subst hs
    exact materialized_addImage h₁ true none rfl
  have hfail : ∀ (e : String) (s : Stores),
      growRg (pure (some e) : ImportCode (Option String)) (Materialized name true s₀) s :=
    fun _ _ _ _ heq => by cases heq
  refine grow_import h₀ fun r _ s₁ _ _ h₁ => ?_
  cases r with
  | some err => exact hfail _ s₁
  | none =>
    refine grow_import h₁ fun streamErr _ s₂ _ _ h₂ => ?_
    unfold finishImport
    cases streamErr with
    | some err => exact grow_import h₂ fun _ _ s₃ _ _ h₃ => hwait _ h₃ fun _ s _ => hfail _ s
    | none =>
      refine grow_import h₂ fun r _ s₃ _ _ h₃ => ?_
      cases r with
      | some err => exact hwait _ h₃ fun _ s _ => hfail _ s
      | none => exact hwait .ret h₃ fun r s h s' hs => h.grows hs

theorem ensureCloudImageFromRaw_rg (h₀ : Grows s₀ s) (repo : String) (force : Bool) (hname : name ≠ "") :
    growRg (ensureCloudImageFromRaw repo name force) (Materialized name force s₀) s := by
  have hweak : ∀ s r, Materialized name true s₀ s r → Materialized name force s₀ s r :=
    fun s r h heq => ⟨(h heq).1, fun _ => (h heq).2 rfl⟩
  unfold ensureCloudImageFromRaw
  simp only [if_neg hname]
  cases force with
  | true => exact importImage_rg h₀
  | false =>
    refine grow_import h₀ fun r s₁ s₂ _ hr h₂ => ?_
    cases r with
    | ok u =>
      obtain ⟨hin, rfl⟩ := hr
      rw [if_neg hname] at hin
      exact fun s' hs _ => ⟨hs.images hin, fun h => by cases h⟩
    | error e =>
      cases hnf : e.notFound with
      | true =>
        simp only [hnf, if_true]
        exact Proc.rg_mono hweak (importImage_rg h₂)
      | false =>
        simp only [hnf, Bool.false_eq_true, if_false]
        exact fun _ _ heq => by cases heq

theorem resolveRunImage_rg (h₀ : Grows s₀ s) :
    growRg (resolveRunImage d q.image q.force) (ImageResult d q s₀) s := by
  unfold resolveRunImage
  split
  · exact ensureImage_rg h₀ rfl
  · refine grow_import h₀ fun r _ s₁ _ _ h₁ => ?_
    cases r with
    | error e => exact ensureImage_rg h₁ rfl
    | ok raw =>
      have hcases : raw.kind = none ∨ raw.kind = some .other ∨ raw.kind = some .snapshot ∨
          raw.kind = some .cloudImage := by
        rcases raw.kind with _ | _ | _ | _ <;> simp
      rcases hcases with hk | hk | hk | hk <;> simp only [hk]
      · exact ensureImage_rg h₁ rfl
      · exact ensureImage_rg h₁ rfl
      · exact imageResult_rg (imageResult_error _)
      · have hne : (d.parseRef q.image).1 ++ ":" ++ (d.parseRef q.image).2 ≠ "" := by
          intro heq
          have hlen := congrArg String.length heq
          simp only [String.length_append] at hlen
          have hcolon : (":" : String).length = 1 := rfl
          have hempty : ("" : String).length = 0 := rfl
          omega
        exact Proc.rg_seq Grows.refl (ensureCloudImageFromRaw_rg h₁ _ q.force hne)
          fun s r h => orError_rg (Or.inr rfl) h

/- A key tells which request it is for. -/
theorem runRequest_key {q q' : RunRequest} (h : q.1.key = q'.1.key) : q.1 = q'.1 := by
  obtain ⟨⟨image, force⟩, hq⟩ := q
  obtain ⟨⟨image', force'⟩, hq'⟩ := q'
  have hlike : ∀ image : String, hasPrefix ("force " ++ image) "force " = true := fun image => by
    simp only [hasPrefix, String.toList_append, List.isPrefixOf_iff_prefix, List.prefix_append]
  cases force <;> cases force' <;> simp only [ImageRequest.key, if_true, Bool.false_eq_true, if_false] at h
  · subst h
    rfl
  · rw [h, hlike] at hq
    cases hq
  · rw [← h, hlike] at hq'
    cases hq'
  · rw [String.append_right_inj] at h
    subst h
    rfl

/-- The result of a flight with this key, for whoever may have started it. -/
def KeyResult (d : ImageDeps) (key : String) (s₀ s : Stores) (r : Except String String) : Prop :=
  ∀ q : RunRequest, q.1.key = key → ImageResult d q.1 s₀ s r

/-- Only the request without an image is answered without a flight. -/
def EmptyResult (key : String) (r : Except String String) : Prop :=
  ∀ q : RunRequest, q.1.key = key → q.1.image = "" ∧ r = .ok ""

def runImageContract (d : ImageDeps) :
    SingleFlight.Contract (runImages d) ImportAnswers Grows where
  rely _ := Grows
  guar _ := Grows
  any := Grows
  post := KeyResult d
  own key _ := EmptyResult key
  rely_refl _ := Grows.refl
  rely_trans _ _ _ _ := Grows.trans
  any_refl := Grows.refl
  any_trans _ _ _ := Grows.trans
  guar_rely _ _ _ _ _ h := h
  guar_any _ _ _ h := h
  env_rely _ _ _ h := h
  env_any _ _ h := h
  post_any _ _ _ _ _ hs h q hq ref heq := (h q hq ref heq).grows hs
  own_any _ _ _ _ _ h := h
  fly q s := Proc.rg_mono (fun s r h q' hkey => runRequest_key hkey ▸ h) (resolveRunImage_rg (Grows.refl s))
  ask q s := by
    show (ensureRunImage q.1).rg _ _ _ _ _
    unfold ensureRunImage
    split
    next himage =>
      intro s' _ r heq q' hkey
      cases heq
      rw [runRequest_key hkey]
      exact ⟨himage, congrArg Except.ok himage⟩
    · exact fun _ _ _ heq => by cases heq

end Images

/-- However the creates of a node interleave and give up: no two flights of one request run at once,
and the reference `ensureRunImage` returns is in the image store. If the create asked for a forced
pull, it was pulled by force or imported anew after the flight took off whose result the create got,
also when another create had started that flight. -/
theorem run_images_bootable (d : ImageDeps) (s : Stores)
    (st : SingleFlight.State Stores RunRequest (Except String String) ImportCall ImportAns)
    (hrun : Relation.ReflTransGen (SingleFlight.Step (runImages d) ImportAnswers Grows) (.start s) st) :
    (∀ (i j : ℕ) f g, st.flights[i]? = some f → st.flights[j]? = some g → f.Running → g.Running →
      f.req.1.key = g.req.1.key → i = j ∧ f.req.1 = g.req.1) ∧
    (∀ c ∈ st.callers, ∀ r, c.pc = .got none r → c.req.1.image = "" ∧ r = .ok "") ∧
    ∀ c ∈ st.callers, ∀ i ref, c.pc = .got (some i) (.ok ref) →
      ∃ f, st.flights[i]? = some f ∧ f.req.1 = c.req.1 ∧
        (ref = c.req.1.image ∨ ref = d.localRef c.req.1.image) ∧
        (c.req.1.image ≠ "" → ref ∈ st.shared.images ∧
          (c.req.1.force = true → f.since.renewals ref < st.shared.renewals ref)) := by
  have hgood := (SingleFlight.run_good (SingleFlight.good_start (runImageContract d) s) hrun).1
  refine ⟨fun i j f g hf hg hfr hgr hkey => ⟨hgood.single i j f g hf hg hfr hgr hkey, runRequest_key hkey⟩,
    fun c hc r hpc => hgood.answered c hc r hpc c.req rfl, fun c hc i ref hpc => ?_⟩
  obtain ⟨f, hf, hkey, hresult⟩ := hgood.got c hc i _ hpc
  have hboot : Bootable d c.req.1 f.since st.shared ref := hresult c.req rfl ref rfl
  exact ⟨f, hf, runRequest_key hkey, hboot.name, fun hne => ⟨hboot.present hne, hboot.renewed hne⟩⟩

/- A forced pull, without a registry, of an image that was pulled before. A second create joins it. -/
def forcedRequest : RunRequest := ⟨⟨"img", true⟩, by decide⟩
def plainDeps : ImageDeps := ⟨false, fun image => (image, "")⟩
def pulledStores : Stores := emptyStores.addImage "img" true

theorem forced_pull_bootable : ∃ st : SingleFlight.State Stores RunRequest (Except String String)
      ImportCall ImportAns,
    Relation.ReflTransGen (SingleFlight.Step (runImages plainDeps) ImportAnswers Grows)
      (.start pulledStores) st ∧
    st.callers = [⟨forcedRequest, .got (some 0) (.ok "img")⟩, ⟨forcedRequest, .got (some 0) (.ok "img")⟩] ∧
    ∃ f, st.flights[0]? = some f ∧ f.since.renewals "img" < st.shared.renewals "img" := by
  obtain ⟨st, hrun, hcallers⟩ : ∃ st : SingleFlight.State Stores RunRequest (Except String String)
      ImportCall ImportAns, Relation.ReflTransGen (SingleFlight.Step (runImages plainDeps) ImportAnswers Grows)
        (.start pulledStores) st ∧ st.callers =
        [⟨forcedRequest, .got (some 0) (.ok "img")⟩, ⟨forcedRequest, .got (some 0) (.ok "img")⟩] :=
    ⟨_, .head (.arrive forcedRequest) (.head (.arrive forcedRequest)
      (.head (.lead (i := 0) rfl (fun f hf => by cases hf))
      (.head (.join (i := 1) (j := 0) rfl rfl ⟨_, rfl⟩ rfl)
      (.head (import_work 0 (.ensureImage "img" true) none _ rfl rfl)
      (.head (.land (j := 0) rfl) (.head (.take (i := 0) (j := 0) rfl rfl)
      (.head (.take (i := 1) (j := 0) rfl rfl) .refl))))))), rfl⟩
  -- what the second create has got
  have hmem : ⟨forcedRequest, .got (some 0) (.ok "img")⟩ ∈ st.callers := by
    rw [hcallers]
    exact List.mem_cons_of_mem _ List.mem_cons_self
  obtain ⟨f, hf, -, -, hboot⟩ :=
    (run_images_bootable plainDeps pulledStores st hrun).2.2 _ hmem 0 "img" rfl
  exact ⟨st, hrun, hcallers, f, hf, (hboot (by decide)).2 rfl⟩

/-! ### macOS images -/

def macosImages : SingleFlight.Service String String (Except String String) ImportCall ImportAns where
  key image := image
  ask _ := pure none
  fly := macosFlight

def MacosResult (image : String) (s : Stores) (r : Except String String) : Prop :=
  ∀ ref, r = .ok ref → ref = image ∧ image ∈ s.macosImages

theorem macosFlight_rg (image : String) (s : Stores) : growRg (macosFlight image) (MacosResult image) s := by
  have hpresent : ∀ {s : Stores}, image ∈ s.macosImages →
      growRg (pure (.ok image) : ImportCode (Except String String)) (MacosResult image) s := by
    intro s hin s' hs ref heq
    cases heq
    exact ⟨rfl, hs.macosImages hin⟩
  have hfail : ∀ (e : String) (s : Stores),
      growRg (pure (.error e) : ImportCode (Except String String)) (MacosResult image) s :=
    fun _ _ _ _ _ heq => by cases heq
  refine grow_import (Grows.refl s) fun r s₁ s₂ _ hr h₂ => ?_
  cases r with
  | true => exact hpresent (hr.2 ▸ hr.1)
  | false =>
    refine grow_import h₂ fun r s₃ s₄ _ _ h₄ => ?_
    cases r with
    | error e => exact hfail _ s₄
    | ok u =>
      refine grow_import h₄ fun r s₅ s₆ _ hr _ => ?_
      cases r with
      | true => exact hpresent (hr.2 ▸ hr.1)
      | false => exact hfail _ s₆

def macosImageContract : SingleFlight.Contract macosImages ImportAnswers Grows where
  rely _ := Grows
  guar _ := Grows
  any := Grows
  post image _ := MacosResult image
  own _ _ _ := False
  rely_refl _ := Grows.refl
  rely_trans _ _ _ _ := Grows.trans
  any_refl := Grows.refl
  any_trans _ _ _ := Grows.trans
  guar_rely _ _ _ _ _ h := h
  guar_any _ _ _ h := h
  env_rely _ _ _ h := h
  env_any _ _ h := h
  post_any _ _ _ _ _ hs h ref heq := ⟨(h ref heq).1, hs.macosImages (h ref heq).2⟩
  own_any _ _ _ _ _ h := h
  fly := macosFlight_rg
  ask _ _ _ _ _ heq := by cases heq

theorem macos_images_present (s : Stores)
    (st : SingleFlight.State Stores String (Except String String) ImportCall ImportAns)
    (hrun : Relation.ReflTransGen (SingleFlight.Step macosImages ImportAnswers Grows) (.start s) st) :
    ∀ c ∈ st.callers, ∀ i ref, c.pc = .got i (.ok ref) → c.req ∈ st.shared.macosImages := by
  intro c hc i ref hpc
  have hgood := (SingleFlight.run_good (SingleFlight.good_start macosImageContract s) hrun).1
  cases i with
  | none => exact (hgood.answered c hc _ hpc).elim
  | some j =>
    obtain ⟨_, _, _, hresult⟩ := hgood.got c hc j _ hpc
    exact (hresult ref rfl).2

end VkCocoon
