import VkCocoon.Bringup
import VkCocoon.Create
import VkCocoon.WakeChoice

/-!
# What a call asks the store and the registry

`Bring` looks at the local snapshots and at the hibernate tags in one step each. Where the store and
the registry answer, these steps are `deriveRestoreFromEvidence` and `hasWakeSource` with all their
calls.
-/

namespace VkCocoon
open Lib

/-- The store and the tag of the name `vmName` as the world has them. -/
structure StoreState.Shows (s : StoreState) (vmName : String) (d : Deps) (w : World) : Prop where
  store : s.store.has vmName = w.localSnapshots.has vmName
  tag : s.tag.isSome = w.hibernateTags.has vmName
  registry : d.registry = w.hasRegistry
  puller : d.puller = w.hasRegistry

/-- The image recorded with the snapshot that a hibernated guest is restored from. -/
def StoreState.evidence (s : StoreState) (d : Deps) (vmName : String) : Option String :=
  if d.registry then s.tag.map (·.baseImage) else (s.store.get vmName).map fun _ => ""

section Store
variable {blobs : String → SnapshotConfig} {vmName : String} {s : StoreState} {w : World}

theorem hibernateEvidence_store (d : Deps) : (hibernateEvidence d vmName).wp (StoreAnswers blobs vmName)
    (fun s' r => s' = s ∧ r = .ok (s.evidence d vmName)) s := by
  unfold hibernateEvidence StoreState.evidence
  cases hreg : d.registry with
  | true =>
    simp only [Bool.not_true, Bool.false_eq_true, if_false, if_true]
    refine Proc.wp_seq fetchHibernateManifest_store ?_
    rintro s' r ⟨rfl, rfl⟩
    cases htag : s'.tag with
    | none => exact ⟨rfl, rfl⟩
    | some m => exact ⟨rfl, rfl⟩
  | false =>
    apply wp_ask
    rintro r s' ⟨rfl, h⟩
    cases hloc : s'.store.get vmName with
    | none =>
      rw [hloc] at h
      obtain ⟨text, rfl⟩ := h
      exact ⟨rfl, rfl⟩
    | some snapshot =>
      rw [hloc] at h
      subst h
      exact ⟨rfl, rfl⟩

theorem StoreState.Shows.evidence {d : Deps} (hs : s.Shows vmName d w) :
    (s.evidence d vmName).isSome = w.hibernateEvidence vmName := by
  unfold StoreState.evidence World.hibernateEvidence
  rw [← hs.registry]
  cases d.registry with
  | true =>
    rw [if_pos rfl, if_pos rfl, Option.isSome_map]
    exact hs.tag
  | false =>
    rw [if_neg Bool.false_ne_true, if_neg Bool.false_ne_true, Option.isSome_map]
    exact hs.store

/-- Where `Bring` goes with the result of `deriveRestoreFromEvidence`. -/
def BringPC.derived (restoring : Bool) : Except String (Bool × BootPod) → BringPC
  | .error e => .fail e
  | .ok (derived, _) => .bringUp (restoring || derived)

theorem sourceConflict_eq (name : String) : sourceConflict name =
    s!"vm {name} has a hibernate snapshot but the pod requests an explicit clone source; delete the " ++
      hibernateSnapshotTag ++ " tag to discard the hibernated state" := by
  have hlit : " has a hibernate snapshot but the pod requests an explicit clone source; delete the " =
      " has a hibernate snapshot but the pod requests an explicit clone source; " ++ "delete the " := by decide
  unfold sourceConflict
  rw [hlit]
  simp only [toString, String.append_assoc]

/-- `deriveRestoreFromEvidence`, where the store and the registry answer, is the look of `Bring` at the
evidence. A recorded image that is not that of the pod is an error reply there. -/
theorem derive_is_evidence {d : Deps} {p : BootPod} {c : Bring} (a : Answer) (hpod : c.pod = p.pod)
    (hpc : c.pc = .evidence) (hm : p.pod.spec.managed = true) (hs : s.Shows p.pod.spec.vmName d w) :
    (deriveRestoreFromEvidence d p p.pod.restoreFromHibernate).wp (StoreAnswers blobs p.pod.spec.vmName)
      (fun s' r => s' = s ∧ ∃ reply,
        c.step w { a with reply := reply } = some (w, .derived p.pod.restoreFromHibernate r, []) ∧
          (reply = .ok ∨ ∃ m, s.evidence d p.pod.spec.vmName = some m ∧ m ≠ "" ∧ m ≠ p.image)) s := by
  have hev := hs.evidence
  have hok : c.step w { a with reply := .ok } = some (w,
      if !w.hibernateEvidence p.pod.spec.vmName then .bringUp p.pod.restoreFromHibernate
      else if !p.pod.restoreFromHibernate && p.pod.cloneSource then .fail (sourceConflict p.pod.spec.vmName)
      else .bringUp true, []) := by
    simp only [Bring.step, hpc, hpod, hm, Bool.not_true, Bool.false_eq_true, if_false, Reply.err]
  have hfail : ∀ e, c.step w { a with reply := .failed e } = some (w, .fail e, []) := by
    intro e
    simp only [Bring.step, hpc, hpod, hm, Bool.not_true, Bool.false_eq_true, if_false, Reply.err]
  unfold deriveRestoreFromEvidence
  refine Proc.wp_seq (hibernateEvidence_store d) ?_
  rintro s' r ⟨rfl, rfl⟩
  cases hfound : s'.evidence d p.pod.spec.vmName with
  | none =>
    rw [hfound] at hev
    rw [← hev] at hok
    refine ⟨rfl, .ok, ?_, Or.inl rfl⟩
    rw [hok]
    simp [BringPC.derived]
  | some image =>
    rw [hfound] at hev
    rw [← hev, p.cloneSource_eq] at hok
    simp only [Option.isSome_some, Bool.not_true, Bool.false_eq_true, if_false] at hok
    dsimp only
    split
    next hconflict =>
      rw [if_pos hconflict, sourceConflict_eq] at hok
      exact ⟨rfl, .ok, hok, Or.inl rfl⟩
    next hconflict =>
      rw [if_neg hconflict] at hok
      split
      next hother =>
        rw [Bool.and_eq_true, bne_iff_ne, bne_iff_ne] at hother
        exact ⟨rfl, .failed _, hfail _, Or.inr ⟨image, rfl, hother⟩⟩
      next =>
        have hrestores : ∀ b' : BootPod, c.step w { a with reply := .ok } =
            some (w, .derived p.pod.restoreFromHibernate (.ok (true, b')), []) := by
          intro b'
          rw [hok, BringPC.derived, Bool.or_true]
        split
        · exact ⟨rfl, .ok, hrestores _, Or.inl rfl⟩
        · exact ⟨rfl, .ok, hrestores _, Or.inl rfl⟩

/-- `hasWakeSource`, where the store and the registry answer, says what `Bring` reads. -/
theorem hasWakeSource_is_world {d : Deps} {spec : VMSpec} (hname : spec.vmName = vmName)
    (hmac : isMacosSpec spec = false) (hs : s.Shows vmName d w) :
    (hasWakeSource d spec).wp (StoreAnswers blobs vmName)
      (fun s' r => s' = s ∧ r = .ok (w.hasWakeSource vmName)) s := by
  have hstore : (hasWakeSource d spec).wp (StoreAnswers blobs vmName) _ s :=
    hasWakeSource_store d (hs.registry.trans hs.puller.symm) hname
  rw [hmac, hs.store, hs.puller, hs.tag] at hstore
  exact hstore

end Store

end VkCocoon
