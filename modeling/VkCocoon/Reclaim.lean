import VkCocoon.Create

/-!
# The reclaimer of local snapshots

Every ten minutes `reclaimLocalSnapshots` drops the local snapshots that no pod of the node needs.
Whether a snapshot is in use is told from the name before the import suffix; what is removed is the
snapshot under its whole name, and with a stale copy the fork snapshot derived from it.
-/

namespace VkCocoon
open Lib

/-! ### Names -/

/-- `strings.HasPrefix` -/
def hasPrefix (s pre : String) : Bool := pre.toList.isPrefixOf s.toList

/-- `strings.CutSuffix` -/
def cutSuffix (s suffix : String) : String × Bool :=
  if suffix.toList.isSuffixOf s.toList then
    (String.ofList (s.toList.take (s.toList.length - suffix.toList.length)), true)
  else (s, false)

/-- `len` of a string, which counts bytes -/
def byteLength (s : String) : ℕ := (s.toList.map Char.utf8Size).sum

/-- The characters that lie whole in the first `n` bytes. -/
def takeChars : ℕ → List Char → List Char
  | _, [] => []
  | n, c :: cs => if c.utf8Size ≤ n then c :: takeChars (n - c.utf8Size) cs else []

/-- `s[:n]`. A character that the cut goes through is left out; the code keeps its first bytes, which
are no text. -/
def takeBytes (n : ℕ) (s : String) : String := String.ofList (takeChars n s.toList)

theorem cutSuffix_append (v suffix : String) : cutSuffix (v ++ suffix) suffix = (v, true) := by
  have hlen : (v ++ suffix).toList.length - suffix.toList.length = v.toList.length := by
    rw [String.toList_append, List.length_append]
    omega
  have hcut : (v ++ suffix).toList.take ((v ++ suffix).toList.length - suffix.toList.length) =
      v.toList := by
    rw [hlen, String.toList_append, List.take_left']
    rfl
  have hsuf : suffix.toList.isSuffixOf (v ++ suffix).toList = true := by
    rw [List.isSuffixOf_iff_suffix, String.toList_append]
    exact List.suffix_append _ _
  unfold cutSuffix
  rw [if_pos hsuf, hcut, String.ofList_toList]

theorem cutSuffix_cases (s suffix : String) :
    (∃ v, s = v ++ suffix ∧ cutSuffix s suffix = (v, true)) ∨
      ((∀ v, s ≠ v ++ suffix) ∧ cutSuffix s suffix = (s, false)) := by
  by_cases h : suffix.toList.isSuffixOf s.toList = true
  · obtain ⟨pre, hpre⟩ := List.isSuffixOf_iff_suffix.mp h
    have hs : s = String.ofList pre ++ suffix := by
      apply String.toList_inj.mp
      rw [String.toList_append, String.toList_ofList, hpre]
    exact Or.inl ⟨_, hs, by rw [hs]; exact cutSuffix_append _ _⟩
  · refine Or.inr ⟨fun v hv => h ?_, if_neg h⟩
    rw [hv, List.isSuffixOf_iff_suffix, String.toList_append]
    exact List.suffix_append _ _

theorem hasPrefix_append {s pre : String} (h : hasPrefix s pre = true) (t : String) :
    hasPrefix (s ++ t) pre = true := by
  unfold hasPrefix at h ⊢
  rw [List.isPrefixOf_iff_prefix] at h ⊢
  rw [String.toList_append]
  exact h.trans (List.prefix_append _ _)

/-! ### The code -/

structure LocalSnapshot where
  snapshot : VMSnapshot
  description : String
deriving DecidableEq, Repr

def cloneSourceDescription : String := "vk-cocoon clone source"

/-- A copy that the provider pulled to clone from. -/
def LocalSnapshot.pulledCloneSource (s : LocalSnapshot) : Bool := s.description == cloneSourceDescription

/-- What a tracked pod says about snapshots. -/
structure SnapshotUser where
  vmName : String
  image : String
deriving DecidableEq, Repr

def defaultSnapshotTag : String := "latest"
def maxSnapshotNameLength : ℕ := 63

section Reclaim
variable (parseRef : String → String × String) (sha256Hex : String → String)

def localSnapshotName (repo tag : String) : String :=
  let name := if tag != "" && tag != defaultSnapshotTag then repo ++ (":" ++ tag) else repo
  if byteLength name ≤ maxSnapshotNameLength then name
  else
    let suffix := "-" ++ takeBytes 12 (sha256Hex name)
    takeBytes (maxSnapshotNameLength - byteLength suffix) name ++ suffix

/-- The local name of what a pod clones from. -/
def SnapshotUser.cloneSource (u : SnapshotUser) : String :=
  localSnapshotName sha256Hex (parseRef u.image).1 (parseRef u.image).2

def snapshotNamesInUse (users : List SnapshotUser) : List String :=
  users.flatMap fun u => [u.vmName, u.cloneSource parseRef sha256Hex]

variable (d : Deps)

def reclaimSnapshot (inUse : List String) (s : LocalSnapshot) : Code Unit :=
  match cutSuffix s.snapshot.name d.importSuffix with
  | (vmName, isImport) =>
    if inUse.contains vmName || (!s.pulledCloneSource && !hasPrefix vmName "vk-") then return ()
    else if isImport then do
      let _ ← ask (.snapshotRemoveIfExists s.snapshot.name)
      return ()
    else if s.pulledCloneSource || vmName.toList.contains ':' then do
      let _ ← ask (.snapshotRemoveIfExists s.snapshot.name)
      return ()
    else do
      match ← verifyLocalSnapshot d vmName s.snapshot with
      | (_, _, some e) => if e.stale then removeLocalSnapshots vmName else return ()
      | (_, _, none) => return ()

def reclaimSnapshots (inUse : List String) : List LocalSnapshot → Code Unit
  | [] => return ()
  | s :: rest => do
    reclaimSnapshot d inUse s
    reclaimSnapshots inUse rest

/-- `snapshots` is the answer of `SnapshotList`. -/
def reclaimLocalSnapshots (users : List SnapshotUser)
    (snapshots : Except String (List LocalSnapshot)) : Code Unit :=
  match snapshots with
  | .error _ => return ()
  | .ok snapshots => reclaimSnapshots d (snapshotNamesInUse parseRef sha256Hex users) snapshots

/-! ### What it removes -/

/-- The names of the snapshots that were removed. -/
def removals (log : List Exchange) : List String :=
  log.filterMap fun x =>
    match x.q with
    | .snapshotRemoveIfExists name => some name
    | _ => none

theorem removals_append (xs ys : List Exchange) : removals (xs ++ ys) = removals xs ++ removals ys :=
  List.filterMap_append

/-- A snapshot the loop does not skip. -/
def Unused (inUse : List String) (s : LocalSnapshot) (vmName : String) : Prop :=
  vmName ∉ inUse ∧ (s.pulledCloneSource = true ∨ hasPrefix vmName "vk-" = true)

instance (inUse : List String) (s : LocalSnapshot) (vmName : String) : Decidable (Unused inUse s vmName) :=
  inferInstanceAs (Decidable (_ ∧ _))

/-- A snapshot that is checked against the registry. -/
structure Checked (inUse : List String) (s : LocalSnapshot) : Prop where
  whole : ∀ v, s.snapshot.name ≠ v ++ d.importSuffix
  free : s.snapshot.name ∉ inUse
  unmarked : s.pulledCloneSource = false
  vk : hasPrefix s.snapshot.name "vk-" = true
  untagged : s.snapshot.name.toList.contains ':' = false

/-- What becomes of one snapshot of the list: nothing, or it is removed, or it is removed with its
fork companion. -/
inductive Reclaimed (inUse : List String) (s : LocalSnapshot) : List String → Prop where
  | kept : Reclaimed inUse s []
  | imported (v : String) (hname : s.snapshot.name = v ++ d.importSuffix) (hu : Unused inUse s v) :
      Reclaimed inUse s [s.snapshot.name]
  | source (hwhole : ∀ v, s.snapshot.name ≠ v ++ d.importSuffix)
      (hu : Unused inUse s s.snapshot.name) : Reclaimed inUse s [s.snapshot.name]
  | stale (hc : Checked d inUse s) (hreg : d.registry = true) :
      Reclaimed inUse s [s.snapshot.name, forkSnapshotName s.snapshot.name]

variable {d}

theorem vk_ne_empty {name : String} (h : hasPrefix name "vk-" = true) : (name == "") = false := by
  cases hn : name == "" with
  | false => rfl
  | true =>
    rw [beq_iff_eq.mp hn] at h
    cases h

/- The check against the registry removes nothing, and finds a copy stale only with a registry. -/
theorem verifyLocalSnapshot_wp (vmName : String) (loc : VMSnapshot) (log : List Exchange) :
    (verifyLocalSnapshot d vmName loc).wp FreeAnswers
      (fun log' r => removals log' = removals log ∧ ∀ e, r.2.2 = some e → d.registry = true) log := by
  cases hreg : d.registry with
  | false =>
    simp only [verifyLocalSnapshot, hreg, Bool.not_false, if_true]
    exact ⟨rfl, fun e he => by cases he⟩
  | true =>
    refine Proc.wp_mono (fun log' _ h => ⟨h, fun _ _ => rfl⟩) ?_
    have honly : (verifyLocalSnapshot d vmName loc).Only (fun q => q.isRemoval = false) := by
      unfold verifyLocalSnapshot
      rw [if_neg (by simp [hreg])]
      refine Proc.only_bind ?_ fun r => ?_
      · unfold fetchHibernateManifest
        refine Proc.only_bind (Proc.only_ask rfl) fun r => ?_
        cases r with
        | error e =>
          dsimp only
          split <;> trivial
        | ok raw => cases raw <;> trivial
      · cases r with
        | error err => trivial
        | ok m =>
          cases m with
          | none => trivial
          | some m =>
            refine Proc.only_bind (Proc.only_ask rfl) fun r => ?_
            cases r with
            | error e => trivial
            | ok cfg =>
              dsimp only
              split <;> trivial
    refine honly.wp (I := fun log' => removals log' = removals log) ?_ rfl
    rintro log₁ q r log₂ hq hI rfl
    rw [removals_append, ← hI]
    cases q <;> first | exact List.append_nil _ | cases hq

theorem reclaimSnapshot_wp (inUse : List String) (s : LocalSnapshot) (log : List Exchange) :
    (reclaimSnapshot d inUse s).wp FreeAnswers (fun log' _ => ∃ names,
      removals log' = removals log ++ names ∧ Reclaimed d inUse s names) log := by
  have hkept : ∀ log', removals log' = removals log → ∃ names,
      removals log' = removals log ++ names ∧ Reclaimed d inUse s names :=
    fun log' h => ⟨[], by rw [h, List.append_nil], .kept⟩
  have hremove : Reclaimed d inUse s [s.snapshot.name] →
      (ask (.snapshotRemoveIfExists s.snapshot.name) >>= fun _ => (return () : Code Unit)).wp
        FreeAnswers (fun log' _ => ∃ names,
          removals log' = removals log ++ names ∧ Reclaimed d inUse s names) log := by
    intro hr
    apply wp_ask
    rintro r log' rfl
    exact ⟨[s.snapshot.name], removals_append _ _, hr⟩
  have hunused : ∀ vmName,
      ¬(inUse.contains vmName || (!s.pulledCloneSource && !hasPrefix vmName "vk-")) = true →
      Unused inUse s vmName := by
    intro vmName h
    simp only [Bool.or_eq_true, Bool.and_eq_true, List.contains_iff_mem, Bool.not_eq_true', not_or,
      not_and, Bool.not_eq_false] at h
    refine ⟨h.1, ?_⟩
    cases hp : s.pulledCloneSource with
    | true => exact Or.inl rfl
    | false => exact Or.inr (h.2 hp)
  unfold reclaimSnapshot
  rcases cutSuffix_cases s.snapshot.name d.importSuffix with ⟨v, hv, hcut⟩ | ⟨hwhole, hcut⟩
  · rw [hcut]
    dsimp only
    split
    · exact hkept log rfl
    next hskip => exact hremove (.imported v hv (hunused v hskip))
  · rw [hcut]
    dsimp only
    split
    · exact hkept log rfl
    next hskip =>
      have hu := hunused _ hskip
      simp only [Bool.false_eq_true, if_false]
      split
      next => exact hremove (.source hwhole hu)
      next hsrc =>
        rw [Bool.not_eq_true, Bool.or_eq_false_iff] at hsrc
        have hvk : hasPrefix s.snapshot.name "vk-" = true := by
          rcases hu.2 with h | h
          · rw [hsrc.1] at h
            cases h
          · exact h
        refine Proc.wp_seq (verifyLocalSnapshot_wp s.snapshot.name s.snapshot log) ?_
        rintro log' ⟨m, cfg, err⟩ ⟨hlog, hreg⟩
        cases err with
        | none => exact hkept log' hlog
        | some e =>
          dsimp only
          split
          · unfold removeLocalSnapshots
            rw [if_neg (by rw [vk_ne_empty hvk]; decide)]
            apply wp_ask
            rintro r₁ log₁ rfl
            apply wp_ask
            rintro r₂ log₂ rfl
            refine ⟨_, ?_, .stale ⟨hwhole, hu.1, hsrc.1, hvk, hsrc.2⟩ (hreg e rfl)⟩
            rw [removals_append, removals_append, hlog, List.append_assoc]
            rfl
          · exact hkept log' hlog

/- The removals, snapshot by snapshot. -/
theorem reclaimSnapshots_wp (inUse : List String) (snapshots : List LocalSnapshot)
    (log : List Exchange) :
    (reclaimSnapshots d inUse snapshots).wp FreeAnswers (fun log' _ => ∃ names,
      removals log' = removals log ++ names.flatten ∧
        List.Forall₂ (Reclaimed d inUse) snapshots names) log := by
  induction snapshots generalizing log with
  | nil => exact ⟨[], (List.append_nil _).symm, .nil⟩
  | cons s rest ih =>
    refine Proc.wp_seq (reclaimSnapshot_wp inUse s log) ?_
    rintro log₁ - ⟨names, hnames, hs⟩
    refine Proc.wp_mono ?_ (ih log₁)
    rintro log₂ - ⟨more, hmore, hrest⟩
    refine ⟨names :: more, ?_, .cons hs hrest⟩
    rw [hmore, hnames, List.append_assoc, List.flatten_cons]

/-! ### A registry without the tags -/

def goneAnswers : (q : Call) → Ans q
  | .getManifest _ _ => .error ⟨"manifest unknown", true⟩
  | .snapshotRemoveIfExists _ | .pullSnapshot _ _ _ _ | .acquirePeerGate | .fetchFiles _ _ _
  | .writeEnvelope _ _ _ => .ok ()
  | .snapshot _ | .fetchSnapshotConfig _ _ | .launch _ _ | .peerBaseURL _ | .fetchPlan _ _
  | .newStagingDir _ | .ensureRunImage _ _ | .ensureSnapshot _ _ _ | .ensureForkSnapshot _ =>
    .error ⟨"unreachable", false⟩
  | .removeAll _ => ()
  | .hasImage _ => false

def goneTags (log : List Exchange) (q : Call) : Ans q × List Exchange :=
  (goneAnswers q, log ++ [⟨q, goneAnswers q⟩])

theorem run_goneTags_grows {α : Type} (p : Code α) (log : List Exchange) :
    log <+: (p.run goneTags log).1 := by
  induction p generalizing log with
  | ret a => exact List.prefix_rfl
  | call q k ih => exact (List.prefix_append log _).trans (ih _ _)

theorem skips_unused {inUse : List String} {s : LocalSnapshot} {v : String} (h : Unused inUse s v) :
    (inUse.contains v || (!s.pulledCloneSource && !hasPrefix v "vk-")) = false := by
  obtain ⟨hfree, hkind⟩ := h
  rw [Bool.or_eq_false_iff]
  refine ⟨by simpa using hfree, ?_⟩
  rcases hkind with h | h <;> simp [h]

theorem run_removes_import {inUse : List String} {s : LocalSnapshot} {v : String}
    (hname : s.snapshot.name = v ++ d.importSuffix) (hu : Unused inUse s v) (log : List Exchange) :
    s.snapshot.name ∈ removals ((reclaimSnapshot d inUse s).run goneTags log).1 := by
  have hcut : cutSuffix s.snapshot.name d.importSuffix = (v, true) := by
    rw [hname]
    exact cutSuffix_append v d.importSuffix
  have hrun : (reclaimSnapshot d inUse s).run goneTags log =
      (log ++ [⟨.snapshotRemoveIfExists s.snapshot.name, .ok ()⟩], ()) := by
    simp only [reclaimSnapshot, hcut, skips_unused hu, Bool.false_eq_true, if_false, if_true]
    rfl
  rw [hrun, removals_append]
  exact List.mem_append_right _ List.mem_cons_self

theorem run_removes_fork {inUse : List String} {s : LocalSnapshot} (hc : Checked d inUse s)
    (hreg : d.registry = true) (log : List Exchange) :
    forkSnapshotName s.snapshot.name ∈ removals ((reclaimSnapshot d inUse s).run goneTags log).1 := by
  have hcut : cutSuffix s.snapshot.name d.importSuffix = (s.snapshot.name, false) := by
    rcases cutSuffix_cases s.snapshot.name d.importSuffix with ⟨v, hv, -⟩ | ⟨-, hcut⟩
    · exact absurd hv (hc.whole v)
    · exact hcut
  have hverify : ∀ log, (verifyLocalSnapshot d s.snapshot.name s.snapshot).run goneTags log =
      (log ++ [⟨.getManifest s.snapshot.name hibernateSnapshotTag, .error ⟨"manifest unknown", true⟩⟩],
        none, none, some ⟨errStaleLocalSnapshot ++ ": no hibernate tag in registry", true⟩) := by
    intro log
    unfold verifyLocalSnapshot
    rw [if_neg (by simp [hreg])]
    rfl
  have hremove : ∀ log, ((removeLocalSnapshots s.snapshot.name).run goneTags log).1 =
      log ++ [⟨.snapshotRemoveIfExists s.snapshot.name, .ok ()⟩] ++
        [⟨.snapshotRemoveIfExists (forkSnapshotName s.snapshot.name), .ok ()⟩] := by
    intro log
    unfold removeLocalSnapshots
    rw [if_neg (by rw [vk_ne_empty hc.vk]; decide)]
    rfl
  have hunused : Unused inUse s s.snapshot.name := ⟨hc.free, Or.inr hc.vk⟩
  have hskip := skips_unused hunused
  rw [hc.unmarked] at hskip
  simp only [reclaimSnapshot, hcut, hc.unmarked, hskip, hc.untagged, Bool.false_eq_true, if_false,
    Bool.or_false, Proc.run_bind, hverify, if_true, hremove]
  rw [removals_append]
  exact List.mem_append_right _ List.mem_cons_self

/- What one snapshot of the list loses is lost in the run over the list. -/
theorem run_removes_listed {inUse : List String} {s : LocalSnapshot} {name : String}
    (h : ∀ log, name ∈ removals ((reclaimSnapshot d inUse s).run goneTags log).1)
    {snapshots : List LocalSnapshot} (hs : s ∈ snapshots) (log : List Exchange) :
    name ∈ removals ((reclaimSnapshots d inUse snapshots).run goneTags log).1 := by
  induction snapshots generalizing log with
  | nil => cases hs
  | cons x rest ih =>
    simp only [reclaimSnapshots, Proc.run_bind]
    rcases List.mem_cons.mp hs with rfl | hrest
    · obtain ⟨more, hmore⟩ := run_goneTags_grows (reclaimSnapshots d inUse rest)
        ((reclaimSnapshot d inUse s).run goneTags log).1
      rw [← hmore, removals_append]
      exact List.mem_append_left _ (h log)
    · exact ih hrest _

/-! ### The snapshots in use -/

/-- The runtime has one snapshot of a name. -/
structure SnapshotList where
  list : List LocalSnapshot
  names_nodup : (list.map fun s => s.snapshot.name).Nodup

/-- The answer of `SnapshotList`. -/
def listed : Except String SnapshotList → List LocalSnapshot
  | .error _ => []
  | .ok snapshots => snapshots.list

variable (d)

/-- The name of a snapshot that a tracked pod wakes from, imports or clones from. -/
def NameInUse (users : List SnapshotUser) (name : String) : Prop :=
  ∃ u ∈ users, name = u.vmName ∨ name = u.vmName ++ d.importSuffix ∨
    name = u.cloneSource parseRef sha256Hex

/-- No snapshot in use is removed, and of the snapshots that are neither marked nor named for a VM
only fork companions of removed ones. -/
structure SparesInUse (users : List SnapshotUser) (snapshots : List LocalSnapshot)
    (log : List Exchange) : Prop where
  inUse : ∀ name ∈ removals log, ¬NameInUse parseRef sha256Hex d users name
  outside : ∀ s ∈ snapshots, s.pulledCloneSource = false → hasPrefix s.snapshot.name "vk-" = false →
    s.snapshot.name ∈ removals log →
    ∃ n ∈ removals log, hasPrefix n "vk-" = true ∧ s.snapshot.name = forkSnapshotName n

/-- An import that no pod wakes is not itself named as a VM or as a clone source of a pod, and no
pod uses the name of the fork companion of a snapshot that is checked. -/
structure NamesApart (users : List SnapshotUser) (snapshots : List LocalSnapshot) : Prop where
  imports : ∀ s ∈ snapshots, ∀ v, s.snapshot.name = v ++ d.importSuffix →
    Unused (snapshotNamesInUse parseRef sha256Hex users) s v →
    s.snapshot.name ∉ snapshotNamesInUse parseRef sha256Hex users
  forks : d.registry = true → ∀ s ∈ snapshots,
    Checked d (snapshotNamesInUse parseRef sha256Hex users) s →
    ¬NameInUse parseRef sha256Hex d users (forkSnapshotName s.snapshot.name)

variable {d} {parseRef sha256Hex} {users : List SnapshotUser}

theorem mem_snapshotNamesInUse {name : String} :
    name ∈ snapshotNamesInUse parseRef sha256Hex users ↔
      ∃ u ∈ users, name = u.vmName ∨ name = u.cloneSource parseRef sha256Hex := by
  simp [snapshotNamesInUse]

theorem nameInUse_iff {name : String} : NameInUse parseRef sha256Hex d users name ↔
    name ∈ snapshotNamesInUse parseRef sha256Hex users ∨
      ∃ u ∈ users, name = u.vmName ++ d.importSuffix := by
  rw [mem_snapshotNamesInUse]
  constructor
  · rintro ⟨u, hu, h | h | h⟩
    · exact Or.inl ⟨u, hu, Or.inl h⟩
    · exact Or.inr ⟨u, hu, h⟩
    · exact Or.inl ⟨u, hu, Or.inr h⟩
  · rintro (⟨u, hu, h | h⟩ | ⟨u, hu, h⟩)
    · exact ⟨u, hu, Or.inl h⟩
    · exact ⟨u, hu, Or.inr (Or.inr h)⟩
    · exact ⟨u, hu, Or.inr (Or.inl h)⟩

/- What goes of one snapshot is not in use when the names are apart. -/
theorem reclaimed_not_inUse {snapshots : List LocalSnapshot}
    (hapart : NamesApart parseRef sha256Hex d users snapshots) {s : LocalSnapshot} (hs : s ∈ snapshots)
    {names : List String}
    (h : Reclaimed d (snapshotNamesInUse parseRef sha256Hex users) s names) :
    ∀ name ∈ names, ¬NameInUse parseRef sha256Hex d users name := by
  have hvm : ∀ {v}, v ∉ snapshotNamesInUse parseRef sha256Hex users → ∀ u ∈ users, v ≠ u.vmName :=
    fun hv u hu he => hv (mem_snapshotNamesInUse.mpr ⟨u, hu, Or.inl he⟩)
  have hwhole : (∀ v, s.snapshot.name ≠ v ++ d.importSuffix) →
      s.snapshot.name ∉ snapshotNamesInUse parseRef sha256Hex users →
      ¬NameInUse parseRef sha256Hex d users s.snapshot.name := by
    intro hw hfree hin
    rcases nameInUse_iff.mp hin with h | ⟨u, -, h⟩
    · exact hfree h
    · exact hw u.vmName h
  intro name hname
  cases h with
  | kept => cases hname
  | imported v hv hu =>
    rw [List.mem_singleton.mp hname]
    intro hin
    rcases nameInUse_iff.mp hin with h | ⟨u, hmem, h⟩
    · exact hapart.imports s hs v hv hu h
    · have heq : v = u.vmName := by
        have h₁ := cutSuffix_append v d.importSuffix
        rw [← hv, h, cutSuffix_append] at h₁
        exact (Prod.mk.inj h₁).1.symm
      exact hvm hu.1 u hmem heq
  | source hw hu =>
    rw [List.mem_singleton.mp hname]
    exact hwhole hw hu.1
  | stale hc hreg =>
    rcases List.mem_cons.mp hname with rfl | hfork
    · exact hwhole hc.whole hc.free
    · rw [List.mem_singleton.mp hfork]
      exact hapart.forks hreg s hs hc

/- A removed name is that of the snapshot or of the companion that goes with it. -/
theorem reclaimed_outside {inUse : List String} {s : LocalSnapshot} {names : List String}
    (h : Reclaimed d inUse s names) {name : String} (hname : name ∈ names)
    (hvk : hasPrefix name "vk-" = false) :
    (name = s.snapshot.name ∧ s.pulledCloneSource = true) ∨
      ∃ n ∈ names, hasPrefix n "vk-" = true ∧ name = forkSnapshotName n := by
  cases h with
  | kept => cases hname
  | imported v hv hu =>
    obtain rfl := List.mem_singleton.mp hname
    rcases hu.2 with h | h
    · exact Or.inl ⟨rfl, h⟩
    · rw [hv, hasPrefix_append h] at hvk
      cases hvk
  | source hw hu =>
    obtain rfl := List.mem_singleton.mp hname
    rcases hu.2 with h | h
    · exact Or.inl ⟨rfl, h⟩
    · rw [h] at hvk
      cases hvk
  | stale hc hreg =>
    rcases List.mem_cons.mp hname with rfl | hfork
    · rw [hc.vk] at hvk
      cases hvk
    · exact Or.inr ⟨_, List.mem_cons_self, hc.vk, List.mem_singleton.mp hfork⟩

theorem mem_flatten_forall₂ {inUse : List String} {snapshots : List LocalSnapshot}
    {groups : List (List String)} (h : List.Forall₂ (Reclaimed d inUse) snapshots groups)
    {name : String} (hname : name ∈ groups.flatten) :
    ∃ s ∈ snapshots, ∃ names ∈ groups, name ∈ names ∧ Reclaimed d inUse s names := by
  induction h with
  | nil => cases hname
  | @cons s names snapshots groups hs hrest ih =>
    rw [List.flatten_cons, List.mem_append] at hname
    rcases hname with hhere | hthere
    · exact ⟨s, List.mem_cons_self, names, List.mem_cons_self, hhere, hs⟩
    · obtain ⟨s', hs', names', hnames', hmem, hr⟩ := ih hthere
      exact ⟨s', List.mem_cons_of_mem _ hs', names', List.mem_cons_of_mem _ hnames', hmem, hr⟩

theorem sparesInUse_of_reclaimed {snapshots : SnapshotList}
    (hapart : NamesApart parseRef sha256Hex d users snapshots.list) {log : List Exchange}
    {groups : List (List String)} (hlog : removals log = groups.flatten)
    (h : List.Forall₂ (Reclaimed d (snapshotNamesInUse parseRef sha256Hex users)) snapshots.list groups) :
    SparesInUse parseRef sha256Hex d users snapshots.list log := by
  constructor
  · intro name hname
    rw [hlog] at hname
    obtain ⟨s, hs, names, -, hmem, hr⟩ := mem_flatten_forall₂ h hname
    exact reclaimed_not_inUse hapart hs hr name hmem
  · intro s hs hunmarked hvk hname
    rw [hlog] at hname
    obtain ⟨s', hs', names, hgroup, hmem, hr⟩ := mem_flatten_forall₂ h hname
    rcases reclaimed_outside hr hmem hvk with ⟨heq, hmarked⟩ | ⟨n, hn, hnvk, hfork⟩
    · -- one snapshot of the name, so it is the marked one
      have hsame : s = s' := List.inj_on_of_nodup_map snapshots.names_nodup hs hs' heq
      rw [← hsame, hunmarked] at hmarked
      cases hmarked
    · refine ⟨n, ?_, hnvk, hfork⟩
      rw [hlog]
      exact List.mem_flatten.mpr ⟨names, hgroup, hn⟩

/-- Whatever the registry answers, the reclaimer spares the snapshots in use, exactly if the names
are apart. -/
theorem reclaim_spares_iff (parseRef : String → String × String) (sha256Hex : String → String)
    (d : Deps) (users : List SnapshotUser) (answer : Except String SnapshotList) :
    (∀ log, Proc.Exec FreeAnswers []
        (reclaimLocalSnapshots parseRef sha256Hex d users (answer.map (·.list))) log () →
      SparesInUse parseRef sha256Hex d users (listed answer) log) ↔
    NamesApart parseRef sha256Hex d users (listed answer) := by
  cases answer with
  | error e =>
    constructor
    · intro _
      exact ⟨fun _ hs => absurd hs List.not_mem_nil, fun _ _ hs => absurd hs List.not_mem_nil⟩
    · intro _ log hexec
      cases hexec
      exact ⟨fun _ hname => absurd hname List.not_mem_nil, fun _ hs => absurd hs List.not_mem_nil⟩
  | ok snapshots =>
    constructor
    · intro h
      have hrun := h _ (Proc.exec_run (W := FreeAnswers) (h := goneTags) (fun _ _ => rfl) [] _)
      constructor
      · intro s hs v hv hu hin
        refine hrun.inUse s.snapshot.name ?_ (nameInUse_iff.mpr (Or.inl hin))
        exact run_removes_listed (run_removes_import hv hu) hs []
      · intro hreg s hs hc
        exact hrun.inUse _ (run_removes_listed (run_removes_fork hc hreg) hs [])
    · intro hapart log hexec
      obtain ⟨groups, hlog, hgroups⟩ := hexec.post (reclaimSnapshots_wp _ snapshots.list [])
      exact sparesInUse_of_reclaimed hapart hlog hgroups

/- A pod whose VM name ends like an import loses its snapshot. -/
theorem reclaim_takes_named :
    ¬∀ (parseRef : String → String × String) (sha256Hex : String → String) (d : Deps)
      (users : List SnapshotUser) (answer : Except String SnapshotList) (log : List Exchange),
      Proc.Exec FreeAnswers []
        (reclaimLocalSnapshots parseRef sha256Hex d users (answer.map (·.list))) log () →
      SparesInUse parseRef sha256Hex d users (listed answer) log := by
  intro h
  let d : Deps := ⟨true, true, false, "node", "-hibernate-import"⟩
  let s : LocalSnapshot := ⟨⟨"SNAP-1", "vk-a-hibernate-import", "", "", ""⟩, ""⟩
  have hexec := Proc.exec_run (W := FreeAnswers) (h := goneTags) (fun _ _ => rfl) []
    (reclaimLocalSnapshots (fun r => (r, "")) id d [⟨"vk-a-hibernate-import", ""⟩] (.ok [s]))
  have hspared := h (fun r => (r, "")) id d [⟨"vk-a-hibernate-import", ""⟩]
    (.ok ⟨[s], List.nodup_singleton _⟩) _ hexec
  refine hspared.inUse "vk-a-hibernate-import" ?_ ⟨_, List.mem_cons_self, Or.inl rfl⟩
  decide

end Reclaim
end VkCocoon
