import VkCocoon.Intent
import VkCocoon.Lib.Pool

/-!
# The teardown fence

DeletePod, the removal eviction and the gone eviction take one fence, the
`deleting` entry of the key, and give it back when they return. A party is one such
teardown; every other critical section, whoever runs it, is an operation of the
surroundings. Tracking without a look at the fence (`trackPod`) is left to startup.
-/

namespace VkCocoon
open Lib Tables

inductive Party where
  /-- `deletePod` before its claim -/
  | claiming (key : Key) (uid : UID)
  /-- `removeThenEvict` and `evictGoneIncarnation` before their claim -/
  | claimingIncarnation (key : Key) (uid : UID) (vmID : VMID)
  | holding (key : Key)
  | done
deriving DecidableEq

/-- The fence a party holds. -/
def Party.holds : Party → Option Key
  | .holding k => some k
  | _ => none

namespace Fence

def entry : Party → Bool
  | .claiming .. | .claimingIncarnation .. => true
  | _ => false

def step (t : Tables) : Party → Option (Tables × Party)
  | .claiming key uid =>
    match t.claimDeleting key uid with
    | (t, .claimed) => some (t, .holding key)
    | (t, _) => some (t, .done)
  | .claimingIncarnation key uid vmID =>
    match t.claimDeletingIncarnation key uid vmID with
    | (t, true) => some (t, .holding key)
    | (t, false) => some (t, .done)
  | .holding key => some (t.finishDeleting key, .done)
  | .done => none

/-- Operations that are not a party's and may run after startup. -/
def ambient : TableOp → Bool
  | .trackPodLocked .. => false
  | op => !op.isFence

variable {S : Type} [DecidableEq S] (snapshot : LifecycleStatus → S)

def program : Program Tables Party Unit TableOp :=
  .ofStep (fun _ p => entry p) (fun t _ p _ => step t p)
    fun t op => if ambient op then some (op.run snapshot t) else none

/-! ### One step -/

theorem claimDeleting_claimed {t t' : Tables} {key : Key} {uid : UID}
    (h : t.claimDeleting key uid = (t', .claimed)) :
    t.deletingLocked key = false ∧ t' = { t with deleting := t.deleting.set key () } := by
  rcases claimDeleting_cases t key uid with ⟨hne, -⟩ | ⟨hfree, heq⟩
  · rw [h] at hne
    exact absurd rfl hne
  · rw [heq] at h
    cases h
    exact ⟨hfree, rfl⟩

theorem claimDeleting_refused {t t' : Tables} {key : Key} {uid : UID} {r : DeleteClaim}
    (h : t.claimDeleting key uid = (t', r)) (hr : r ≠ .claimed) : t' = t := by
  rcases claimDeleting_cases t key uid with ⟨-, heq⟩ | ⟨-, heq⟩
  · rw [h] at heq
    exact heq
  · rw [heq] at h
    cases h
    exact absurd rfl hr

theorem claimDeletingIncarnation_claimed {t t' : Tables} {key : Key} {uid : UID} {vmID : VMID}
    (h : t.claimDeletingIncarnation key uid vmID = (t', true)) :
    t.deletingLocked key = false ∧ t' = { t with deleting := t.deleting.set key () } := by
  unfold claimDeletingIncarnation at h
  split at h
  · cases h
  next hd =>
    split at h
    · cases h
      exact ⟨by simpa using hd, rfl⟩
    · cases h

theorem claimDeletingIncarnation_refused {t t' : Tables} {key : Key} {uid : UID} {vmID : VMID}
    (h : t.claimDeletingIncarnation key uid vmID = (t', false)) : t' = t := by
  unfold claimDeletingIncarnation at h
  split at h
  · cases h
    rfl
  · split at h
    · cases h
    · cases h
      rfl

/- A party takes a free fence, is turned away, or gives back the fence it holds. -/
theorem step_cases {t t' : Tables} {p p' : Party} (h : step t p = some (t', p')) :
    (∃ key, entry p = true ∧ p' = .holding key ∧ t.deletingLocked key = false ∧
      t' = { t with deleting := t.deleting.set key () }) ∨
    (entry p = true ∧ p' = .done ∧ t' = t) ∨
    (∃ key, p = .holding key ∧ p' = .done ∧ t' = t.finishDeleting key) := by
  cases p with
  | claiming key uid =>
    simp only [step] at h
    split at h
    next t1 hc =>
      cases h
      obtain ⟨hd, ht⟩ := claimDeleting_claimed hc
      exact Or.inl ⟨key, rfl, rfl, hd, ht⟩
    next t1 r hne hc =>
      cases h
      exact Or.inr (Or.inl ⟨rfl, rfl, claimDeleting_refused hc hne⟩)
  | claimingIncarnation key uid vmID =>
    simp only [step] at h
    split at h
    next t1 hc =>
      cases h
      obtain ⟨hd, ht⟩ := claimDeletingIncarnation_claimed hc
      exact Or.inl ⟨key, rfl, rfl, hd, ht⟩
    next t1 hc =>
      cases h
      exact Or.inr (Or.inl ⟨rfl, rfl, claimDeletingIncarnation_refused hc⟩)
  | holding key =>
    cases h
    exact Or.inr (Or.inr ⟨key, rfl, rfl, rfl⟩)
  | done => cases h

/-- From `t₀` to `t` the pod and the VM of `k` stayed what they were, or went away. -/
structure Frozen (k : Key) (t₀ t : Tables) : Prop where
  pod : ∀ p, t.pods.get k = some p →
    ∃ p₀, t₀.pods.get k = some p₀ ∧ p₀.ref = p.ref ∧ p₀.uid = p.uid
  vm : ∀ v, t.vmsByPod.get k = some v → ∃ v₀, t₀.vmsByPod.get k = some v₀ ∧ v₀.id = v.id

theorem Frozen.of_eq {k : Key} {t₀ t : Tables} (hp : t.pods = t₀.pods)
    (hv : t.vmsByPod = t₀.vmsByPod) : Frozen k t₀ t := by
  constructor
  · intro p h
    rw [hp] at h
    exact ⟨p, h, rfl, rfl⟩
  · intro v h
    rw [hv] at h
    exact ⟨v, h, rfl⟩

theorem Frozen.trans {k : Key} {a b c : Tables} (hab : Frozen k a b) (hbc : Frozen k b c) :
    Frozen k a c := by
  constructor
  · intro p hp
    obtain ⟨q, hq, hr, hu⟩ := hbc.pod p hp
    obtain ⟨r, hr', hrr, hru⟩ := hab.pod q hq
    exact ⟨r, hr', hrr.trans hr, hru.trans hu⟩
  · intro v hv
    obtain ⟨w, hw, hid⟩ := hbc.vm v hv
    obtain ⟨x, hx, hxid⟩ := hab.vm w hw
    exact ⟨x, hx, hxid.trans hid⟩

/- Behind the fence of its key no ambient operation gets to track a pod. -/
theorem ambient_tracks {t : Tables} {op : TableOp} {pod : Pod} {w : Option VM}
    (ha : ambient op = true) (h : op.tracks t = some (pod, w)) : t.deletingLocked pod.key = false := by
  cases op with
  | trackPodLocked p v => cases ha
  | trackPodUnlessDeleting p v =>
    simp only [TableOp.tracks] at h
    split at h
    · cases h
    next hd =>
      cases h
      simpa using hd
  | trackPodIncarnation p v =>
    simp only [TableOp.tracks] at h
    split at h
    · cases h
    next hd =>
      cases h
      simp only [Bool.or_eq_true, not_or, Bool.not_eq_true] at hd
      exact hd.1
  | _ => cases h

/- A key is frozen under an operation that tracks no pod there. -/
theorem untracking_freezes {t : Tables} {op : TableOp} {k : Key}
    (hno : ∀ pod w, op.tracks t = some (pod, w) → pod.key ≠ k) : Frozen k t (op.run snapshot t) := by
  constructor
  · intro p hp
    rcases run_pod snapshot t op k with (hn | ⟨q, q', hq, hq', hs⟩) | ⟨pod, w, l, htr, hpk, -⟩
    · rw [hn] at hp
      cases hp
    · rw [hq'] at hp
      cases hp
      exact ⟨q, hq, hs.ref, hs.uid⟩
    · exact absurd hpk (hno pod w htr)
  · intro v hv
    rcases run_vm snapshot t op k with hs | hn | ⟨v₀, m, a, -, hv₀, hnew⟩ | ⟨pod, w, htr, hpk, -⟩
    · rw [hs] at hv
      exact ⟨v, hv, rfl⟩
    · rw [hn] at hv
      cases hv
    · rw [hnew] at hv
      cases hv
      exact ⟨v₀, hv₀, (VMMutation_apply_id m v₀).symm⟩
    · exact absurd hpk (hno pod (some w) htr)

theorem ambient_freezes {t : Tables} {op : TableOp} (ha : ambient op = true) {k : Key}
    (hk : t.deleting.has k = true) : Frozen k t (op.run snapshot t) := by
  refine untracking_freezes snapshot fun pod w htr hpk => ?_
  have hd := ambient_tracks ha htr
  rw [hpk] at hd
  simp [deletingLocked, hk] at hd

theorem fence_freezes {t : Tables} {op : TableOp} (hf : op.isFence = true) (k : Key) :
    Frozen k t (op.run snapshot t) := by
  refine untracking_freezes snapshot fun pod w htr => ?_
  cases op with
  | claimDeletingIncarnation | claimDeleting | finishDeleting => cases htr
  | _ => cases hf

/-! ### Whole runs -/

/-- A held fence is up, and no two parties hold the same one. -/
structure Exclusive (c : Config Tables Party) : Prop where
  held : ∀ (i : ℕ) (k : Key), c.threads[i]? = some (.holding k) → c.shared.deleting.has k = true
  unique : ∀ (i j : ℕ) (k : Key), c.threads[i]? = some (.holding k) →
    c.threads[j]? = some (.holding k) → i = j

theorem entry_holds {p : Party} (h : entry p = true) : p.holds = none := by
  cases p with
  | holding k => cases h
  | _ => rfl

theorem holds_iff {p : Party} {k : Key} : p.holds = some k ↔ p = .holding k := by
  cases p <;> simp [Party.holds]

theorem exclusive_iff {c : Config Tables Party} :
    Exclusive c ↔ Program.Locked Party.holds (fun t k => t.deleting.has k = true) c := by
  constructor
  · intro hc
    refine ⟨fun i p k hp hk => ?_, fun i j p q k hp hq hpk hqk => ?_⟩
    · rw [holds_iff.mp hk] at hp
      exact hc.held i k hp
    · rw [holds_iff.mp hpk] at hp
      rw [holds_iff.mp hqk] at hq
      exact hc.unique i j k hp hq
  · intro hc
    refine ⟨fun i k hi => hc.held i _ k hi rfl, fun i j k hi hj => ?_⟩
    exact hc.apart i j _ _ k hi hj rfl rfl

/- A step takes a fence that was down, keeps what it has or gives its fence back. -/
theorem step_move {t t' : Tables} {p p' : Party} (h : step t p = some (t', p')) :
    Program.LockMove (fun k => t.deleting.has k = true) (fun k => t'.deleting.has k = true)
      p.holds p'.holds := by
  rcases step_cases h with ⟨key, he, rfl, hfree, rfl⟩ | ⟨he, rfl, rfl⟩ | ⟨key, rfl, rfl, rfl⟩
  · refine .take key (entry_holds he) rfl (Bool.eq_false_iff.mp hfree) fun k hk => ?_
    simp only
    rw [GoMap.has_set, Bool.or_eq_true, decide_eq_true_eq]
    exact hk
  · exact .keep (entry_holds he).symm fun _ hk => hk
  · refine .give key rfl rfl fun k hne hk => ?_
    simp only [finishDeleting]
    rw [GoMap.has_del, decide_eq_false hne]
    exact hk

theorem program_env {t t' : Tables} {op : TableOp} (h : (program snapshot).env t op = some t') :
    ambient op = true ∧ t' = op.run snapshot t := by
  simp only [program, Program.ofStep] at h
  split at h
  next ha =>
    cases h
    exact ⟨ha, rfl⟩
  next => cases h

theorem ambient_not_fence {op : TableOp} (h : ambient op = true) : op.isFence = false := by
  cases op <;> first | rfl | cases h

theorem next_exclusive {c c' : Config Tables Party} {e : PoolEvent Party Unit TableOp}
    (hc : Exclusive c) (h : (program snapshot).next c e = some c') : Exclusive c' := by
  rw [exclusive_iff] at hc ⊢
  refine (program snapshot).next_locked (fun _ _ he => entry_holds he) ?_ ?_ hc h
  · intro t i p a t' p' new hs
    obtain ⟨r, hr, heq⟩ := Option.map_eq_some_iff.mp hs
    cases heq
    exact ⟨step_move hr, fun _ hu => absurd hu List.not_mem_nil⟩
  · intro t op t' he k hk
    obtain ⟨ha, rfl⟩ := program_env snapshot he
    rw [run_deleting snapshot t op (ambient_not_fence ha)]
    exact hk

/-- Party `i` holds `k` and the key has been frozen since `t₀`, or it has returned. -/
def HeldSince (t₀ : Tables) (i : ℕ) (k : Key) (c : Config Tables Party) : Prop :=
  (c.threads[i]? = some (.holding k) ∧ Frozen k t₀ c.shared) ∨ c.threads[i]? = some .done

theorem next_heldSince {t₀ : Tables} {i : ℕ} {k : Key} {c c' : Config Tables Party}
    {e : PoolEvent Party Unit TableOp} (hc : Exclusive c) (hs : HeldSince t₀ i k c)
    (h : (program snapshot).next c e = some c') : HeldSince t₀ i k c' := by
  cases e with
  | start p =>
    obtain ⟨-, rfl⟩ := (program snapshot).next_start h
    have hlt : ∀ q, c.threads[i]? = some q → (c.threads ++ [p])[i]? = some q := by
      intro q hq
      rw [List.getElem?_append_left (List.getElem?_eq_some_iff.mp hq).1]
      exact hq
    exact hs.imp (fun ⟨hi, hf⟩ => ⟨hlt _ hi, hf⟩) (hlt _)
  | run j a =>
    obtain ⟨p, t', p', hp, hstep, rfl⟩ := Program.ofStep_run h
    -- a party's step writes the fence only, so the key stays frozen
    have hfrozen : Frozen k c.shared t' := by
      rcases step_cases hstep with ⟨key, -, -, -, rfl⟩ | ⟨-, -, rfl⟩ | ⟨key, -, -, rfl⟩ <;>
        exact Frozen.of_eq rfl rfl
    by_cases hij : i = j
    · subst hij
      right
      have hlt : i < c.threads.length := (List.getElem?_eq_some_iff.mp hp).1
      rw [List.getElem?_set_self hlt]
      rcases hs with ⟨hi, -⟩ | hi
      · rw [hp] at hi
        cases hi
        cases hstep
        rfl
      · rw [hp] at hi
        cases hi
        cases hstep
    · have hget : (c.threads.set j p')[i]? = c.threads[i]? :=
        List.getElem?_set_ne fun e => hij e.symm
      rcases hs with ⟨hi, hf⟩ | hi
      · exact Or.inl ⟨hget.trans hi, hf.trans hfrozen⟩
      · exact Or.inr (hget.trans hi)
  | env op =>
    obtain ⟨t', ht, rfl⟩ := (program snapshot).next_env h
    obtain ⟨ha, rfl⟩ := program_env snapshot ht
    rcases hs with ⟨hi, hf⟩ | hi
    · exact Or.inl ⟨hi, hf.trans (ambient_freezes snapshot ha (hc.held i k hi))⟩
    · exact Or.inr hi

theorem exec_exclusive {t : Tables} {es : List (PoolEvent Party Unit TableOp)} {c : Config Tables Party}
    (h : (program snapshot).machine.exec ⟨t, []⟩ es = some c) : Exclusive c := by
  have hinit : Exclusive ⟨t, []⟩ := by
    constructor
    · intro i k hi
      simp at hi
    · intro i j k hi
      simp at hi
  exact (program snapshot).machine.exec_invariant
    (fun _ _ _ hc _ hn => next_exclusive snapshot hc hn) hinit
    ((program snapshot).machine.guarded_true _ _) h

/-- From any tables: while party `i` holds `k`, the fence of `k` stays up,
no other party holds it or can claim it, and the tracked pod and the bound VM of `k` are what
they were at any earlier moment of the hold, or are gone. -/
theorem teardown_fence_freezes_key (t : Tables) (es₁ es₂ : List (PoolEvent Party Unit TableOp))
    (c₁ c₂ : Config Tables Party) (i : ℕ) (k : Key)
    (h₁ : (program snapshot).machine.exec ⟨t, []⟩ es₁ = some c₁)
    (hold₁ : c₁.threads[i]? = some (.holding k))
    (h₂ : (program snapshot).machine.exec c₁ es₂ = some c₂)
    (hold₂ : c₂.threads[i]? = some (.holding k)) :
    c₂.shared.deleting.has k = true ∧
    (∀ j : ℕ, c₂.threads[j]? = some (.holding k) → j = i) ∧
    (∀ uid, (c₂.shared.claimDeleting k uid).2 ≠ .claimed) ∧
    (∀ uid vmID, (c₂.shared.claimDeletingIncarnation k uid vmID).2 = false) ∧
    Frozen k c₁.shared c₂.shared := by
  have hex₁ := exec_exclusive snapshot h₁
  have hnext : ∀ c e c', Exclusive c ∧ HeldSince c₁.shared i k c → True →
      (program snapshot).next c e = some c' → Exclusive c' ∧ HeldSince c₁.shared i k c' := by
    intro c e c' hc _ hn
    exact ⟨next_exclusive snapshot hc.1 hn, next_heldSince snapshot hc.1 hc.2 hn⟩
  have hboth : Exclusive c₂ ∧ HeldSince c₁.shared i k c₂ :=
    (program snapshot).machine.exec_invariant hnext ⟨hex₁, Or.inl ⟨hold₁, Frozen.of_eq rfl rfl⟩⟩
      ((program snapshot).machine.guarded_true _ _) h₂
  obtain ⟨hex₂, hsince⟩ := hboth
  have hup := hex₂.held i k hold₂
  refine ⟨hup, fun j hj => hex₂.unique j i k hj hold₂, fun uid hcl => ?_, fun uid vmID => ?_, ?_⟩
  · obtain ⟨hd, -⟩ := claimDeleting_claimed (Prod.ext rfl hcl)
    simp [deletingLocked, hup] at hd
  · simp [claimDeletingIncarnation, deletingLocked, hup]
  · rcases hsince with ⟨-, hf⟩ | hdone
    · exact hf
    · rw [hold₂] at hdone
      cases hdone

def claimTrace : List (PoolEvent Party Unit TableOp) :=
  [.env (.trackPodIncarnation samplePod sampleVM), .start (.claiming "ns/a" "u"), .run 0 ()]

def heldTrace : List (PoolEvent Party Unit TableOp) :=
  [.start (.claimingIncarnation "ns/a" "u" "vm1"), .run 1 (),
   .env (.trackPodUnlessDeleting { samplePod with ref := 1, uid := "w" } none),
   .env (.updateTrackedVM "ns/a" "vm1" (.ip "10.0.0.7"))]

/- A delete holds the key while a gone eviction, a successor's create and a lease refresh
arrive; the refresh is the only one that changes anything. -/
theorem teardown_fence_turns_others_away :
    ∃ c₁ c₂ : Config Tables Party,
      (program id).machine.exec ⟨.new, []⟩ claimTrace = some c₁ ∧
      (program id).machine.exec c₁ heldTrace = some c₂ ∧
      (c₂.shared.vmsByPod.get "ns/a").map (·.ip) = some "10.0.0.7" ∧
      Frozen "ns/a" c₁.shared c₂.shared := by
  have hclaim : ((program id).machine.exec ⟨.new, []⟩ claimTrace).map (fun c => c.threads[0]?) =
      some (some (.holding "ns/a")) := by decide
  have hall : ((program id).machine.exec ⟨.new, []⟩ (claimTrace ++ heldTrace)).map
      (fun c => (c.threads[0]?, (c.shared.vmsByPod.get "ns/a").map (·.ip))) =
      some (some (.holding "ns/a"), some "10.0.0.7") := by decide
  obtain ⟨c₂, h, hc₂⟩ := Option.map_eq_some_iff.mp hall
  obtain ⟨c₁, h₁, h₂⟩ := (program id).machine.exec_append_some.mp h
  rw [h₁] at hclaim
  refine ⟨c₁, c₂, h₁, h₂, congrArg Prod.snd hc₂, ?_⟩
  exact (teardown_fence_freezes_key id .new claimTrace heldTrace c₁ c₂ 0 "ns/a" h₁
    (Option.some.inj hclaim) h₂ (congrArg Prod.fst hc₂)).2.2.2.2

end Fence
end VkCocoon
