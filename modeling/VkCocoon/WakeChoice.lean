import VkCocoon.WakeSource

/-!
# The choice between a wake and a create

`updatePod` commits an untracked pod to a wake when `hasWakeSource` says so, and the
wake then asks `resolveWakeSource`. The two are compared on one state of the
snapshot store and the registry, where every call but those to the peer is answered
by that state.
-/

namespace VkCocoon
open Lib

structure StoreState where
  store : GoMap String VMSnapshot
  tag : Option OCIManifest

section Store
variable (blobs : String → SnapshotConfig) (vmName : String)

/-- The runtime, the registry and the puller answer by the state and do not fail; the peer
answers as it likes. -/
def StoreAnswers : Proc.Answers StoreState Call Ans := fun s q r s' =>
  match q, r with
  | .snapshot name, r => s' = s ∧
    match s.store.get name with
    | some snapshot => r = .ok snapshot
    | none => ∃ text, r = .error ⟨text, true⟩
  | .snapshotRemoveIfExists name, r => r = .ok () ∧ s' = { s with store := s.store.del name }
  | .getManifest repo t, r => s' = s ∧ (repo = vmName → t = hibernateSnapshotTag →
    match s.tag with
    | some m => r = .ok (.parsed m)
    | none => ∃ text, r = .error ⟨text, true⟩)
  | .fetchSnapshotConfig _ digest, r => s' = s ∧ r = .ok (blobs digest)
  | .pullSnapshot repo t name _, r => repo = vmName → t = hibernateSnapshotTag →
    match s.tag with
    | some m => r = .ok () ∧ ∃ snapshot : VMSnapshot, snapshot.id = (blobs m.config).snapshotID ∧
      s' = { s with store := s.store.set name snapshot }
    | none => s' = s ∧ ∃ e, r = .error e
  | _, _ => s' = s

variable {blobs vmName} {s : StoreState}

theorem storeAnswers_reads {q : Call} (hq : q.readsOnly = true) {r : Ans q} {s' : StoreState}
    (h : StoreAnswers blobs vmName s q r s') : s' = s := by
  cases q
  case snapshot | getManifest | fetchSnapshotConfig => exact h.1
  case snapshotRemoveIfExists | pullSnapshot | ensureRunImage | ensureSnapshot | ensureForkSnapshot |
      launch => cases hq
  all_goals exact h

theorem reads_keep_state {α : Type} {p : Code α} (hp : p.Only fun q => q.readsOnly = true) :
    p.wp (StoreAnswers blobs vmName) (fun s' _ => s' = s) s := by
  refine hp.wp ?_ rfl
  rintro s₁ q r s₂ hq rfl h
  exact storeAnswers_reads hq h

theorem fetchHibernateManifest_store : (fetchHibernateManifest vmName).wp (StoreAnswers blobs vmName)
    (fun s' r => s' = s ∧ r = .ok s.tag) s := by
  apply wp_ask
  rintro r s' ⟨rfl, h⟩
  have hr := h rfl rfl
  cases htag : s'.tag with
  | some m =>
    rw [htag] at hr
    subst hr
    exact ⟨rfl, rfl⟩
  | none =>
    rw [htag] at hr
    obtain ⟨text, rfl⟩ := hr
    exact ⟨rfl, rfl⟩

theorem hasWakeSource_store (d : Deps) (hreg : d.registry = d.puller) {spec : VMSpec} (hname : spec.vmName = vmName) :
    (hasWakeSource d spec).wp (StoreAnswers blobs vmName)
      (fun s' r => s' = s ∧
        r = .ok (!isMacosSpec spec && (s.store.has vmName || (d.puller && s.tag.isSome)))) s := by
  subst hname
  unfold hasWakeSource
  cases hmac : isMacosSpec spec with
  | true => exact ⟨rfl, rfl⟩
  | false =>
    apply wp_ask
    rintro r s' ⟨rfl, h⟩
    cases hloc : s'.store.get spec.vmName with
    | some snapshot =>
      rw [hloc] at h
      subst h
      exact ⟨rfl, by simp [GoMap.has, hloc]⟩
    | none =>
      rw [hloc] at h
      obtain ⟨text, rfl⟩ := h
      cases hpull : d.puller with
      | false =>
        simp only [Bool.not_true, Bool.false_eq_true, if_false, Bool.not_false, if_true]
        exact ⟨rfl, by simp [GoMap.has, hloc]⟩
      | true =>
        simp only [Bool.not_true, Bool.false_eq_true, if_false, hpull, hreg]
        refine Proc.wp_seq fetchHibernateManifest_store ?_
        rintro s r ⟨rfl, rfl⟩
        exact ⟨rfl, by simp [GoMap.has, hloc]⟩

theorem pullWakeSource_store (d : Deps) (hpull : d.puller = true) :
    (pullWakeSource d vmName).wp (StoreAnswers blobs vmName)
      (fun _ r => (∃ src, r = .ok src) ↔ s.tag.isSome = true) s := by
  unfold pullWakeSource
  rw [if_neg (by rw [hpull]; decide)]
  apply wp_ask
  intro r s' h
  have hr := h rfl rfl
  cases htag : s.tag with
  | none =>
    rw [htag] at hr
    obtain ⟨-, e, rfl⟩ := hr
    refine ⟨fun ⟨src, h⟩ => ?_, fun h => ?_⟩ <;> cases h
  | some m =>
    rw [htag] at hr
    obtain ⟨rfl, snapshot, -, rfl⟩ := hr
    apply wp_ask
    rintro r s'' ⟨-, hsnap⟩
    rw [GoMap.get_set_self] at hsnap
    subst hsnap
    exact ⟨fun _ => rfl, fun _ => ⟨_, rfl⟩⟩

/- A peer source needs a manifest: the caller's, or the one under the tag. -/
theorem tryPeerRestore_store (d : Deps) (m : Option OCIManifest) (cfg : Option SnapshotConfig) :
    (tryPeerRestore d vmName m cfg).wp (StoreAnswers blobs vmName)
      (fun s' r => s' = s ∧ (r.isSome = true → m.isSome = true ∨ s.tag.isSome = true)) s := by
  refine Proc.wp_and (reads_keep_state (tryPeerRestore_only d vmName m cfg)) ?_
  cases m with
  | some m =>
    refine Proc.wp_mono ?_ (reads_keep_state (tryPeerRestore_only d vmName (some m) cfg))
    exact fun _ _ _ _ => Or.inl rfl
  | none =>
    cases htag : s.tag with
    | some m =>
      refine Proc.wp_mono ?_ (reads_keep_state (tryPeerRestore_only d vmName none cfg))
      exact fun _ _ _ _ => Or.inr rfl
    | none =>
      unfold tryPeerRestore
      split
      · exact fun h => by cases h
      · have hman : (peerManifest vmName none).wp (StoreAnswers blobs vmName)
            (fun _ r => r = none) s := by
          refine Proc.wp_seq fetchHibernateManifest_store ?_
          rintro s' r ⟨-, rfl⟩
          exact htag
        refine Proc.wp_seq hman ?_
        rintro s' r rfl
        exact fun h => by cases h

theorem fetchWakeSource_store (d : Deps) (hpull : d.puller = true) {m : Option OCIManifest}
    (cfg : Option SnapshotConfig) (tagAbsent : Bool) (hm : m.isSome = true → s.tag.isSome = true) :
    (fetchWakeSource d vmName m cfg tagAbsent).wp (StoreAnswers blobs vmName)
      (fun _ r => (∃ src, r = .ok src) ↔ s.tag.isSome = true) s := by
  unfold fetchWakeSource
  split
  · exact pullWakeSource_store d hpull
  · refine Proc.wp_seq (tryPeerRestore_store d m cfg) ?_
    rintro s' r ⟨rfl, hsome⟩
    cases r with
    | none => exact pullWakeSource_store d hpull
    | some src =>
      have htag : s'.tag.isSome = true := (hsome rfl).elim hm id
      exact ⟨fun _ => htag, fun _ => ⟨src, rfl⟩⟩

theorem removeLocalSnapshots_store : (removeLocalSnapshots vmName).wp (StoreAnswers blobs vmName)
    (fun s' _ => s'.tag = s.tag) s := by
  unfold removeLocalSnapshots
  split
  · rfl
  · apply wp_ask
    rintro r s₁ ⟨-, rfl⟩
    apply wp_ask
    rintro r s₂ ⟨-, rfl⟩
    rfl

theorem resolveWakeSource_store (d : Deps) (hpull : d.puller = true) (hreg : d.registry = true) :
    (resolveWakeSource d vmName).wp (StoreAnswers blobs vmName)
      (fun _ r => (∃ src, r = .ok src) ↔ s.tag.isSome = true) s := by
  apply wp_ask
  rintro r s₁ ⟨rfl, h⟩
  cases hloc : s₁.store.get vmName with
  | none =>
    rw [hloc] at h
    obtain ⟨text, rfl⟩ := h
    exact fetchWakeSource_store d hpull none false fun h => by cases h
  | some loc =>
    rw [hloc] at h
    subst h
    refine Proc.wp_bind.mpr ?_
    unfold verifyLocalSnapshot
    rw [if_neg (by rw [hreg]; decide)]
    refine Proc.wp_seq fetchHibernateManifest_store ?_
    rintro s₂ r ⟨rfl, rfl⟩
    have hdiscard : ∀ (m : Option OCIManifest) (cfg : Option SnapshotConfig),
        (m.isSome = true → s₂.tag.isSome = true) →
        (removeLocalSnapshots vmName >>= fun _ => fetchWakeSource d vmName m cfg m.isNone).wp
          (StoreAnswers blobs vmName) (fun _ r => (∃ src, r = .ok src) ↔ s₂.tag.isSome = true) s₂ := by
      intro m cfg hm
      refine Proc.wp_seq removeLocalSnapshots_store fun s₃ _ htag => ?_
      rw [← htag] at hm ⊢
      exact fetchWakeSource_store d hpull cfg m.isNone hm
    cases htag : s₂.tag with
    | none =>
      have hd := hdiscard none none fun h => by cases h
      rw [htag] at hd
      exact hd
    | some m =>
      apply wp_ask
      rintro r s₃ ⟨rfl, rfl⟩
      dsimp only
      split
      · have hd := hdiscard (some m) (some (blobs m.config)) fun _ => by rw [htag]; rfl
        rw [htag] at hd
        exact hd
      · exact ⟨fun _ => rfl, fun _ => ⟨_, rfl⟩⟩

end Store

/-- What `updatePod` makes of an untracked pod that does not ask for hibernate. -/
inductive UntrackedChoice where
  | create
  | wake
deriving DecidableEq, Repr

def updateUntracked (d : Deps) (spec : VMSpec) : Code (Except String UntrackedChoice) := do
  match ← hasWakeSource d spec with
  | .error err => return .error err
  | .ok hasSource => if hasSource then return .ok .wake else return .ok .create

/-- On `s`, whatever the peer answers: `hasWakeSource` says yes exactly when `resolveWakeSource`
returns a source. -/
def WakeAgrees (blobs : String → SnapshotConfig) (d : Deps) (spec : VMSpec) (s : StoreState) : Prop :=
  ∀ s₁ s₂ answer src, Proc.Exec (StoreAnswers blobs spec.vmName) s (hasWakeSource d spec) s₁ answer →
    Proc.Exec (StoreAnswers blobs spec.vmName) s (resolveWakeSource d spec.vmName) s₂ src →
    (answer = .ok true ↔ ∃ w, src = .ok w)

/-- A pod that is committed to a wake on `s` gets a source. -/
def CommitsToSource (blobs : String → SnapshotConfig) (d : Deps) (spec : VMSpec) (s : StoreState) :
    Prop :=
  ∀ s₁ s₂ src, Proc.Exec (StoreAnswers blobs spec.vmName) s (updateUntracked d spec) s₁ (.ok .wake) →
    Proc.Exec (StoreAnswers blobs spec.vmName) s₁ (resolveWakeSource d spec.vmName) s₂ src →
    ∃ w, src = .ok w

/-- Surroundings in which no peer can be reached. -/
def storeHandler (blobs : String → SnapshotConfig) (s : StoreState) : (q : Call) → Ans q × StoreState
  | .snapshot name =>
    match s.store.get name with
    | some snapshot => (.ok snapshot, s)
    | none => (.error ⟨"snapshot not found", true⟩, s)
  | .snapshotRemoveIfExists name => (.ok (), { s with store := s.store.del name })
  | .getManifest _ _ =>
    match s.tag with
    | some m => (.ok (.parsed m), s)
    | none => (.error ⟨"manifest not found", true⟩, s)
  | .fetchSnapshotConfig _ digest => (.ok (blobs digest), s)
  | .pullSnapshot _ _ name _ =>
    match s.tag with
    | some m =>
      (.ok (), { s with store := s.store.set name ⟨(blobs m.config).snapshotID, name, "", "", ""⟩ })
    | none => (.error ⟨"manifest not found", true⟩, s)
  | .peerBaseURL _ | .acquirePeerGate | .fetchPlan _ _ | .newStagingDir _ | .fetchFiles _ _ _
  | .writeEnvelope _ _ _ | .ensureRunImage _ _ | .ensureSnapshot _ _ _ | .ensureForkSnapshot _
  | .launch _ _ => (.error ⟨"unreachable", false⟩, s)
  | .removeAll _ => ((), s)
  | .hasImage _ => (false, s)

theorem storeHandler_answers (blobs : String → SnapshotConfig) (vmName : String) (s : StoreState)
    (q : Call) :
    StoreAnswers blobs vmName s q (storeHandler blobs s q).1 (storeHandler blobs s q).2 := by
  cases q
  case snapshot name =>
    simp only [StoreAnswers, storeHandler]
    cases s.store.get name with
    | some snapshot => exact ⟨rfl, rfl⟩
    | none => exact ⟨rfl, _, rfl⟩
  case getManifest repo t =>
    simp only [StoreAnswers, storeHandler]
    cases s.tag with
    | some m => exact ⟨rfl, fun _ _ => rfl⟩
    | none => exact ⟨rfl, fun _ _ => ⟨_, rfl⟩⟩
  case pullSnapshot repo t name desc =>
    simp only [StoreAnswers, storeHandler]
    intro _ _
    cases s.tag with
    | some m => exact ⟨rfl, _, rfl, rfl⟩
    | none => exact ⟨rfl, _, rfl⟩
  case snapshotRemoveIfExists name => exact ⟨rfl, rfl⟩
  case fetchSnapshotConfig repo digest => exact ⟨rfl, rfl⟩
  all_goals rfl

/-- The choice and the wake agree unless a local copy is left whose tag is gone. A macOS pod never
has a wake source, so there they agree only when there is no tag either. -/
theorem wake_choice_agrees_iff (blobs : String → SnapshotConfig) (d : Deps)
    (hpull : d.puller = true) (hreg : d.registry = true) (spec : VMSpec) (s : StoreState) :
    (WakeAgrees blobs d spec s ∧ CommitsToSource blobs d spec s) ↔
      if isMacosSpec spec then s.tag = none
      else ¬(s.store.has spec.vmName = true ∧ s.tag = none) := by
  have hsource : ∀ s : StoreState, (hasWakeSource d spec).wp (StoreAnswers blobs spec.vmName) (fun s₁ answer =>
      s₁ = s ∧ answer = .ok (!isMacosSpec spec && (s.store.has spec.vmName || s.tag.isSome))) s := by
    intro s
    have h : (hasWakeSource d spec).wp (StoreAnswers blobs spec.vmName) _ s :=
      hasWakeSource_store d (hreg.trans hpull.symm) rfl
    rwa [hpull, Bool.true_and] at h
  have hhas : ∀ {s s₁ : StoreState} {answer : Except String Bool},
      Proc.Exec (StoreAnswers blobs spec.vmName) s (hasWakeSource d spec) s₁ answer →
      s₁ = s ∧ answer = .ok (!isMacosSpec spec && (s.store.has spec.vmName || s.tag.isSome)) :=
    fun h => h.post (hsource _)
  have hres : ∀ {s s₂ : StoreState} {src : Except String WakeSource},
      Proc.Exec (StoreAnswers blobs spec.vmName) s (resolveWakeSource d spec.vmName) s₂ src →
      ((∃ w, src = .ok w) ↔ s.tag.isSome = true) :=
    fun h => h.post (resolveWakeSource_store d hpull hreg)
  have hcommit : ∀ {s₁ : StoreState},
      Proc.Exec (StoreAnswers blobs spec.vmName) s (updateUntracked d spec) s₁ (.ok .wake) →
      s₁ = s ∧ isMacosSpec spec = false ∧ (s.store.has spec.vmName || s.tag.isSome) = true := by
    intro s₁ h
    have hwp : (updateUntracked d spec).wp (StoreAnswers blobs spec.vmName)
        (fun s' r => s' = s ∧ (r = .ok .wake →
          (!isMacosSpec spec && (s.store.has spec.vmName || s.tag.isSome)) = true)) s := by
      refine Proc.wp_seq (hsource s) ?_
      rintro s' r ⟨rfl, rfl⟩
      dsimp only
      split
      next hyes => exact ⟨rfl, fun _ => hyes⟩
      next => exact ⟨rfl, fun h => by cases h⟩
    obtain ⟨hs, hyes⟩ := h.post hwp
    exact ⟨hs, by simpa using hyes rfl⟩
  constructor
  · rintro ⟨hagree, -⟩
    have hboth := hagree _ _ _ _ (Proc.exec_run (storeHandler_answers blobs spec.vmName) s _)
      (Proc.exec_run (storeHandler_answers blobs spec.vmName) s _)
    rw [hres (Proc.exec_run (storeHandler_answers blobs spec.vmName) s _),
      (hhas (Proc.exec_run (storeHandler_answers blobs spec.vmName) s _)).2] at hboth
    cases hmac : isMacosSpec spec with
    | true => simpa [hmac] using hboth
    | false =>
      rw [if_neg (by decide)]
      rintro ⟨hloc, htag⟩
      simp [hmac, hloc, htag] at hboth
  · intro hcond
    refine ⟨fun s₁ s₂ answer src h h' => ?_, fun s₁ s₂ src h h' => ?_⟩
    · rw [hres h', (hhas h).2]
      cases hmac : isMacosSpec spec with
      | true =>
        rw [hmac, if_pos rfl] at hcond
        simp [hcond]
      | false =>
        rw [hmac, if_neg (by decide)] at hcond
        cases htag : s.tag with
        | none =>
          have hloc : s.store.has spec.vmName = false := by
            cases hh : s.store.has spec.vmName with
            | true => exact absurd ⟨hh, htag⟩ hcond
            | false => rfl
          simp [hloc]
        | some m => simp
    · obtain ⟨rfl, hmac, hyes⟩ := hcommit h
      rw [hres h']
      rw [hmac, if_neg (by decide)] at hcond
      cases htag : s₁.tag with
      | none =>
        rw [htag, Option.isSome_none, Bool.or_false] at hyes
        exact absurd ⟨hyes, htag⟩ hcond
      | some m => rfl

/- The operator has dropped the tag, and the node still holds the copy it woke from. -/
def leftoverCopy : StoreState :=
  ⟨GoMap.empty.set "vk-a" ⟨"sha256:a", "vk-a", "", "", ""⟩, none⟩

def verifiedCopy : StoreState := { leftoverCopy with tag := some ⟨"sha256:a", "", ""⟩ }

theorem wake_choice_agrees_verified : WakeAgrees sampleBlobs sampleDeps samplePod.spec verifiedCopy ∧
    CommitsToSource sampleBlobs sampleDeps samplePod.spec verifiedCopy :=
  (wake_choice_agrees_iff sampleBlobs sampleDeps rfl rfl samplePod.spec verifiedCopy).mpr (by decide)

theorem wake_choice_disagrees_on_leftover :
    ¬∀ (blobs : String → SnapshotConfig) (d : Deps) (spec : VMSpec) (s : StoreState),
      d.puller = true → d.registry = true → isMacosSpec spec = false → WakeAgrees blobs d spec s := by
  intro h
  have hagree := h sampleBlobs sampleDeps samplePod.spec leftoverCopy rfl rfl rfl
  have hhas : ((hasWakeSource sampleDeps samplePod.spec).run (storeHandler sampleBlobs)
      leftoverCopy).2 = .ok true := by decide
  have hres : ((resolveWakeSource sampleDeps "vk-a").run (storeHandler sampleBlobs)
      leftoverCopy).2 = .error "pull hibernation snapshot vk-a: manifest not found" := by decide
  have hboth := hagree _ _ _ _
    (Proc.exec_run (storeHandler_answers sampleBlobs "vk-a") leftoverCopy _)
    (Proc.exec_run (storeHandler_answers sampleBlobs "vk-a") leftoverCopy _)
  obtain ⟨w, hw⟩ := hboth.mp hhas
  cases hres.symm.trans hw

end VkCocoon
