import VkCocoon.Adopt

/-!
# The lifecycle intent is fenced, monotone and sticky

Three rules guard a write to `lifecycleIntent`: the incarnation must be the tracked
one, the generation must not go back, and a failure of the same generation yields
only to a new attempt. `IntentOwned` is the invariant of the first rule; the other
two are about one span of an entry, from its creation to its end.
-/

namespace VkCocoon
open Lib Tables

/-- Where a pod is tracked and an intent is staged, both are of one incarnation. -/
def IntentOwned (t : Tables) : Prop :=
  ∀ k p e, t.pods.get k = some p → t.lifecycleIntent.get k = some e → e.uid = p.uid

section Intent
variable {S : Type} [DecidableEq S] (snapshot : LifecycleStatus → S)

def runOps (t : Tables) (ops : List TableOp) : Tables := ops.foldl (TableOp.run snapshot) t

/- An accepted write over an entry of the same incarnation does not lower the generation,
and leaves a failure of the same generation to a new attempt only. -/
theorem accepted_over {t : Tables} {pod : Pod} {status : LifecycleStatus} {cur : LifecycleEntry}
    (hr : t.refusesLifecycle pod status = false)
    (hcur : t.lifecycleIntent.get pod.key = some cur) (hu : cur.uid = pod.uid) :
    cur.status.observedGeneration ≤ status.observedGeneration ∧
    (cur.status.state = .failed → status.state = .failed ∨ status.state = .creating ∨
      status.state = .hibernating ∨
      cur.status.observedGeneration < status.observedGeneration) := by
  simp only [refusesLifecycle, hcur, hu, bne_self_eq_false, Bool.false_eq_true, if_false,
    Bool.or_eq_false_iff, decide_eq_false_iff_not, not_lt] at hr
  obtain ⟨-, hle, hst⟩ := hr
  refine ⟨hle, fun hf => ?_⟩
  by_contra hno
  push Not at hno
  obtain ⟨h1, h2, h3, h4⟩ := hno
  have heq : status.observedGeneration = cur.status.observedGeneration := le_antisymm h4 hle
  simp [hf, h1, h2, h3, heq] at hst

theorem accepted_not_superseded {t : Tables} {pod p : Pod} {status : LifecycleStatus}
    (hr : t.refusesLifecycle pod status = false) (hp : t.pods.get pod.key = some p) :
    p.uid = pod.uid := by
  have hs : t.supersededLocked pod.key pod.uid = false := by
    simp only [refusesLifecycle, Bool.or_eq_false_iff] at hr
    exact hr.1
  simpa [supersededLocked, hp] using hs

theorem run_intentOwned {t : Tables} (h : IntentOwned t) (op : TableOp) :
    IntentOwned (op.run snapshot t) := by
  intro k p' e' hp' he'
  rcases run_pod snapshot t op k with hkeep | ⟨pod, w, l, htr, hk, hpod⟩
  · obtain hnone | ⟨p, q, hp, hq, hsame⟩ := hkeep
    · rw [hnone] at hp'
      cases hp'
    · rw [hq] at hp'
      cases hp'
      rw [← hsame.uid]
      rcases run_intent snapshot t op k with ⟨pod, state, message, -, hk, hr, -, hnew⟩ | ⟨-, hrest⟩
      · rw [hnew] at he'
        cases he'
        subst hk
        exact (accepted_not_superseded hr hp).symm
      · rcases hrest with hsame' | hgone | ⟨e, sent, he, -, -, hnew⟩
        · rw [hsame'] at he'
          exact h k p e' hp he'
        · rw [hgone] at he'
          cases he'
        · rw [hnew] at he'
          cases he'
          exact h k p e hp he
  · subst hk
    rw [hpod] at hp'
    cases hp'
    rw [run_intent_of_tracks snapshot htr] at he'
    have hu := (Option.filter_eq_some_iff.mp he').2
    simpa using hu

theorem runOps_intentOwned {t : Tables} (h : IntentOwned t) (ops : List TableOp) :
    IntentOwned (runOps snapshot t ops) := by
  induction ops generalizing t with
  | nil => exact h
  | cons op ops ih => exact ih (run_intentOwned snapshot h op)

/-! ### Startup -/

/-- The ways startup writes the tables for the pod of one key: operations that track no
pod of another key, seeds of the incarnation that is tracked, and the tables no fence reads. -/
inductive Builds (key : Key) (t : Tables) : Tables → Prop where
  | refl : Builds key t t
  | op (t' : Tables) (op : TableOp) (h : Builds key t t')
      (htr : ∀ pod w, op.tracks t' = some (pod, w) → pod.key = key) : Builds key t (op.run snapshot t')
  | seed (t' : Tables) (pod : Pod) (h : Builds key t t') (hk : pod.key = key)
      (hp : ∀ p, t'.pods.get key = some p → p.uid = pod.uid) :
      Builds key t (t'.seedLifecycleIntentFromPod pod)
  | frame (t' t'' : Tables) (h : Builds key t t') (hp : t''.pods = t'.pods)
      (hi : t''.lifecycleIntent = t'.lifecycleIntent) : Builds key t t''

theorem seedLifecycleIntentFromPod_pods (t : Tables) (pod : Pod) :
    (t.seedLifecycleIntentFromPod pod).pods = t.pods := by
  unfold seedLifecycleIntentFromPod
  split <;> rfl

theorem seed_intentOwned {t : Tables} (h : IntentOwned t) (pod : Pod)
    (hp : ∀ p, t.pods.get pod.key = some p → p.uid = pod.uid) :
    IntentOwned (t.seedLifecycleIntentFromPod pod) := by
  intro k p e hpk he
  rw [seedLifecycleIntentFromPod_pods] at hpk
  cases hl : pod.lifecycle with
  | none =>
    simp only [seedLifecycleIntentFromPod, hl] at he
    exact h k p e hpk he
  | some status =>
    simp only [seedLifecycleIntentFromPod, hl, GoMap.get_set] at he
    split at he
    next hk =>
      cases he
      subst hk
      exact (hp p hpk).symm
    next => exact h k p e hpk he

theorem Builds.intentOwned {key : Key} {t t' : Tables} (hb : Builds snapshot key t t')
    (h : IntentOwned t) : IntentOwned t' := by
  induction hb with
  | refl => exact h
  | op t' op _ _ ih => exact run_intentOwned snapshot ih op
  | seed t' pod _ hk hp ih =>
    subst hk
    exact seed_intentOwned ih pod hp
  | frame t' t'' _ hp hi ih =>
    intro k p e hpk he
    rw [hp] at hpk
    rw [hi] at he
    exact ih k p e hpk he

theorem KeepsPod.none_of_none {t t' : Tables} {k : Key} (h : KeepsPod t t' k)
    (hn : t.pods.get k = none) : t'.pods.get k = none := by
  rcases h with h | ⟨p, p', hp, -, -⟩
  · exact h
  · rw [hn] at hp
    cases hp

/- What startup does for one pod leaves an untracked pod of another key untracked. -/
theorem Builds.untracked {key k : Key} {t t' : Tables} (hb : Builds snapshot key t t')
    (hk : k ≠ key) (hn : t.pods.get k = none) : t'.pods.get k = none := by
  induction hb with
  | refl => exact hn
  | op t' op _ htr ih =>
    rcases run_pod snapshot t' op k with hkeep | ⟨pod, w, l, ht, hpk, -⟩
    · exact hkeep.none_of_none ih
    · exact absurd (hpk.symm.trans (htr pod w ht)) hk
  | seed t' pod _ _ _ ih => rw [seedLifecycleIntentFromPod_pods]; exact ih
  | frame t' t'' _ hp _ ih => rw [hp]; exact ih

/- The startup of one pod, its key free so far. -/
theorem Adopts.builds {pod : Pod} {a : Findings} {t t' : Tables} (h : Adopts snapshot pod a t t')
    (hfresh : t.pods.get pod.key = none) : Builds snapshot pod.key t t' := by
  induction h with
  | refl => exact .refl
  | op t' op _ hop ih =>
    refine .op t' op ih fun p w htr => ?_
    cases op with
    | trackPodLocked q v =>
      cases htr
      exact hop.1
    | trackPodIncarnation q v =>
      simp only [TableOp.tracks] at htr
      split at htr
      · cases htr
      · cases htr
        rw [hop.1]
    | trackPodUnlessDeleting q v => cases hop
    | _ => cases htr
  | seed t' q _ hk hp ih =>
    refine .seed t' q ih hk ?_
    rcases hp with heq | hown
    · intro p hget
      rw [heq, hfresh] at hget
      cases hget
    · exact hown
  | alloc t' n _ ih => exact .frame t' _ ih rfl rfl
  | leftover t' m _ ih => exact .frame t' _ ih rfl rfl

theorem reconcile_intentOwned (xs : List (Pod × Findings)) (t : Tables)
    (hnodup : (xs.map fun x => x.1.key).Nodup) (hfresh : ∀ x ∈ xs, t.pods.get x.1.key = none)
    (h : IntentOwned t) : IntentOwned (xs.foldl (reconcileOne snapshot) t) := by
  induction xs generalizing t with
  | nil => exact h
  | cons x xs ih =>
    rw [List.map_cons, List.nodup_cons] at hnodup
    have hb := (reconcileOne_adopts t x).builds snapshot (hfresh x List.mem_cons_self)
    refine ih _ hnodup.2 (fun y hy => ?_) (hb.intentOwned snapshot h)
    have hne : y.1.key ≠ x.1.key := fun e => hnodup.1 (List.mem_map.mpr ⟨y, hy, e⟩)
    exact hb.untracked snapshot hne (hfresh y (List.mem_cons_of_mem _ hy))

theorem Startup.order_perm (s : Startup) : s.order.Perm s.pods := by
  have h := List.filter_append_perm (fun x : Pod × Findings => !isMacosSpec x.1.spec) s.pods
  simpa [Startup.order] using h

/- The claims are all it writes. -/
theorem dispatchOwedWork_frame (t : Tables) :
    ∃ r, dispatchOwedWork t = { t with resumedOps := r } := by
  have hclaim : ∀ (t' : Tables) (key : Key), ∃ r, (t'.claimResume key).1 =
      { t' with resumedOps := r } := by
    intro t' key
    unfold claimResume
    split
    · exact ⟨t'.resumedOps, rfl⟩
    · exact ⟨_, rfl⟩
  have hfold : ∀ (xs : List (Key × Pod)) (t : Tables), ∃ r, xs.foldl (fun t x =>
      if (owedOpFor x.2 (t.vmsByPod.get x.1)).isSome then (t.claimResume x.1).1 else t) t =
      { t with resumedOps := r } := by
    intro xs
    induction xs with
    | nil => exact fun t => ⟨t.resumedOps, rfl⟩
    | cons x xs ih =>
      intro t
      rw [List.foldl_cons]
      split
      · obtain ⟨r, hr⟩ := hclaim t x.1
        obtain ⟨r', hr'⟩ := ih (t.claimResume x.1).1
        exact ⟨r', by rw [hr', hr]⟩
      · exact ih t
  exact hfold t.pods.toList t

theorem indexOrphans_frame (vs : List VM) (t : Tables) :
    ∃ names, vs.foldl indexOrphanByNameLocked t = { t with vmsByName := names } := by
  induction vs generalizing t with
  | nil => exact ⟨t.vmsByName, rfl⟩
  | cons v vs ih =>
    obtain ⟨names, hn⟩ := t.indexOrphanByNameLocked_eq v
    obtain ⟨names', hn'⟩ := ih (t.indexOrphanByNameLocked v)
    exact ⟨names', by rw [List.foldl_cons, hn', hn]⟩

theorem startupReconcile_intentOwned (s : Startup) : IntentOwned (startupReconcile snapshot s) := by
  have hnodup : (s.order.map fun x => x.1.key).Nodup :=
    (s.order_perm.map _).nodup_iff.mpr s.keys_nodup
  have hempty : IntentOwned Tables.new := by
    intro k p e hp
    simp [Tables.new] at hp
  have hfold := reconcile_intentOwned snapshot s.order .new hnodup
    (fun _ _ => GoMap.get_empty _) hempty
  obtain ⟨names, hn⟩ := indexOrphans_frame s.orphans (s.order.foldl (reconcileOne snapshot) .new)
  obtain ⟨claims, hclaims⟩ := dispatchOwedWork_frame
    { s.order.foldl (reconcileOne snapshot) .new with vmsByName := names }
  intro k p e hp he
  simp only [startupReconcile, hn, hclaims] at hp he
  exact hfold k p e hp he

/-! ### One span of an entry -/

/-- At every point of the run the entry of `k` exists and belongs to incarnation `u`. -/
def Span (k : Key) (u : UID) : Tables → List TableOp → Prop
  | t, [] => ∃ e, t.lifecycleIntent.get k = some e ∧ e.uid = u
  | t, op :: ops =>
    (∃ e, t.lifecycleIntent.get k = some e ∧ e.uid = u) ∧ Span k u (op.run snapshot t) ops

theorem Span.head {k : Key} {u : UID} {t : Tables} {ops : List TableOp}
    (h : Span snapshot k u t ops) : ∃ e, t.lifecycleIntent.get k = some e ∧ e.uid = u := by
  cases ops with
  | nil => exact h
  | cons op ops => exact h.1

/- One step inside a span: the status stays, or an applied write replaces it within the rules. -/
theorem run_span {t : Tables} {op : TableOp} {k : Key} {e e' : LifecycleEntry}
    (he : t.lifecycleIntent.get k = some e)
    (he' : (op.run snapshot t).lifecycleIntent.get k = some e') (hu : e'.uid = e.uid) :
    e'.status = e.status ∨
    (op.applied t k = some e'.status.state ∧
      e.status.observedGeneration ≤ e'.status.observedGeneration ∧
      (e.status.state = .failed → e'.status.state = .failed ∨ e'.status.state = .creating ∨
        e'.status.state = .hibernating ∨
        e.status.observedGeneration < e'.status.observedGeneration)) := by
  rcases run_intent snapshot t op k with ⟨pod, state, message, -, hk, hr, happ, hnew⟩ | ⟨-, hrest⟩
  · right
    subst hk
    rw [hnew] at he'
    cases he'
    exact ⟨happ, accepted_over hr he hu.symm⟩
  · left
    rcases hrest with hsame | hgone | ⟨e₀, sent, he₀, -, -, hnew⟩
    · rw [hsame, he] at he'
      cases he'
      rfl
    · rw [hgone] at he'
      cases he'
    · rw [he] at he₀
      rw [hnew] at he'
      cases he₀
      cases he'
      rfl

theorem span_generation {k : Key} {u : UID} {t : Tables} {ops : List TableOp}
    (h : Span snapshot k u t ops) {e e' : LifecycleEntry} (he : t.lifecycleIntent.get k = some e)
    (he' : (runOps snapshot t ops).lifecycleIntent.get k = some e') :
    e.status.observedGeneration ≤ e'.status.observedGeneration := by
  induction ops generalizing t e with
  | nil =>
    rw [show runOps snapshot t [] = t from rfl, he] at he'
    cases he'
    exact le_rfl
  | cons op ops ih =>
    obtain ⟨⟨e₀, he₀, hu₀⟩, hrest⟩ := h
    obtain ⟨e₁, he₁, hu₁⟩ := hrest.head snapshot
    rw [he] at he₀
    cases he₀
    have htail := ih hrest he₁ he'
    rcases run_span snapshot he he₁ (hu₁.trans hu₀.symm) with hs | ⟨-, hle, -⟩
    · rw [← hs]
      exact htail
    · exact hle.trans htail

/-- The entry is still the failure of generation `g`, or belongs to a later generation. -/
def FailedOrLater (g : ℤ) (s : LifecycleStatus) : Prop :=
  (s.state = .failed ∧ g ≤ s.observedGeneration) ∨ g < s.observedGeneration

/-- An applied `creating` or `hibernating` write to `k` within the run. -/
def NewAttempt (k : Key) (t : Tables) (ops : List TableOp) : Prop :=
  ∃ pre op post, ops = pre ++ op :: post ∧
    (op.applied (runOps snapshot t pre) k = some .creating ∨
     op.applied (runOps snapshot t pre) k = some .hibernating)

theorem NewAttempt.cons {k : Key} {t : Tables} {op : TableOp} {ops : List TableOp}
    (h : NewAttempt snapshot k (op.run snapshot t) ops) : NewAttempt snapshot k t (op :: ops) := by
  obtain ⟨pre, o, post, rfl, ho⟩ := h
  exact ⟨op :: pre, o, post, rfl, ho⟩

theorem span_sticky {k : Key} {u : UID} {g : ℤ} {t : Tables} {ops : List TableOp}
    (h : Span snapshot k u t ops) {e e' : LifecycleEntry} (he : t.lifecycleIntent.get k = some e)
    (he' : (runOps snapshot t ops).lifecycleIntent.get k = some e')
    (hf : FailedOrLater g e.status) :
    NewAttempt snapshot k t ops ∨ FailedOrLater g e'.status := by
  induction ops generalizing t e with
  | nil =>
    rw [show runOps snapshot t [] = t from rfl, he] at he'
    cases he'
    exact Or.inr hf
  | cons op ops ih =>
    obtain ⟨⟨e₀, he₀, hu₀⟩, hrest⟩ := h
    obtain ⟨e₁, he₁, hu₁⟩ := hrest.head snapshot
    rw [he] at he₀
    cases he₀
    have hgo : FailedOrLater g e₁.status →
        NewAttempt snapshot k t (op :: ops) ∨ FailedOrLater g e'.status := fun hf₁ =>
      (ih hrest he₁ he' hf₁).imp_left (NewAttempt.cons snapshot)
    rcases run_span snapshot he he₁ (hu₁.trans hu₀.symm) with hs | ⟨happ, hle, hst⟩
    · exact hgo (by rw [hs]; exact hf)
    · rcases hf with ⟨hfail, hg⟩ | hg
      · rcases hst hfail with h1 | h1 | h1 | hlt
        · exact hgo (Or.inl ⟨h1, hg.trans hle⟩)
        · exact Or.inl ⟨[], op, ops, rfl, Or.inl (by rw [← h1]; exact happ)⟩
        · exact Or.inl ⟨[], op, ops, rfl, Or.inr (by rw [← h1]; exact happ)⟩
        · exact hgo (Or.inr (hg.trans_lt hlt))
      · exact hgo (Or.inr (hg.trans_le hle))

/-- From the tables startup builds, after any operations: an intent and a tracked pod of one
key are of one incarnation; within one span of an entry its generation never decreases, and a
failure turns ready or hibernated at its own generation only after a new attempt was applied. -/
theorem lifecycleIntent_fenced_monotone_sticky (s : Startup) (ops : List TableOp) :
    (∀ k p e, (runOps snapshot (startupReconcile snapshot s) ops).pods.get k = some p →
      (runOps snapshot (startupReconcile snapshot s) ops).lifecycleIntent.get k = some e →
      e.uid = p.uid) ∧
    ∀ k u later e e', Span snapshot k u (runOps snapshot (startupReconcile snapshot s) ops) later →
      (runOps snapshot (startupReconcile snapshot s) ops).lifecycleIntent.get k = some e →
      (runOps snapshot (runOps snapshot (startupReconcile snapshot s) ops) later
        ).lifecycleIntent.get k = some e' →
      e.status.observedGeneration ≤ e'.status.observedGeneration ∧
      (e.status.state = .failed → e'.status.observedGeneration = e.status.observedGeneration →
        e'.status.state = .ready ∨ e'.status.state = .hibernated →
        NewAttempt snapshot k (runOps snapshot (startupReconcile snapshot s) ops) later) := by
  refine ⟨runOps_intentOwned snapshot (startupReconcile_intentOwned snapshot s) ops, ?_⟩
  intro k u later e e' hspan he he'
  refine ⟨span_generation snapshot hspan he he', fun hfail hgen hdone => ?_⟩
  have hstart : FailedOrLater e.status.observedGeneration e.status := Or.inl ⟨hfail, le_rfl⟩
  rcases span_sticky snapshot hspan he he' hstart with hnew | ⟨hf, -⟩ | hlt
  · exact hnew
  · rcases hdone with hd | hd <;> rw [hf] at hd <;> cases hd
  · rw [hgen] at hlt
    exact absurd hlt (lt_irrefl _)

end Intent

/- A pod whose hibernate failed before the restart, and the update that lifts the failure. -/
def failedPod : Pod :=
  { samplePod with hibernate := true, lifecycle := some ⟨.failed, 3, "hibernate: push"⟩ }

def failedPodFindings : Findings := ⟨none, none, false, none, .pending, .pending, none, false, false, 0⟩

def failedPodStartup : Startup := ⟨[(failedPod, failedPodFindings)], by simp, []⟩

theorem lifecycleIntent_failed_then_ready :
    NewAttempt id "ns/a" (runOps id (startupReconcile id failedPodStartup) [])
      [.setLifecycleState failedPod .creating "", .setLifecycleState failedPod .ready ""] := by
  refine ((lifecycleIntent_fenced_monotone_sticky id failedPodStartup []).2 "ns/a" "u" _
    ⟨"u", ⟨.failed, 3, "hibernate: push"⟩, some ⟨.failed, 3, "hibernate: push"⟩⟩
    ⟨"u", ⟨.ready, 3, ""⟩, none⟩ ?_ ?_ ?_).2 rfl rfl (Or.inl rfl)
  · exact ⟨⟨_, rfl, rfl⟩, ⟨_, rfl, rfl⟩, _, rfl, rfl⟩
  · rfl
  · rfl

end VkCocoon
