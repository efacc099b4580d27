import VkCocoon.World

/-!
# The hibernate protocol

`hibernate` saves the guest, pushes the snapshot, removes the VM, and undoes what it
did when a step fails. Each program point of the source at which it calls out or takes
the lock is a `HibPC`; `Hib.step` is the step from one to the next. The flush of a
lifecycle state only patches annotations and is left to the machines that are about
annotations.
-/

namespace VkCocoon
open Lib Tables

inductive HibPC where
  | startHibernate
  | markHibernating
  /-- `ipconfig /release` in the guest, best effort -/
  | release
  | dropNIC
  /-- `ipconfig /renew` after a failed drop -/
  | renewAfterDrop (msg : String)
  | save
  | push
  | clear
  | remove
  | deleteManifest (msg : String)
  | addNIC (msg : String)
  | inspectNIC (msg : String)
  | refreshNIC (msg : String) (fresh : Option VM)
  /-- `trackPodIncarnation` of `applyRuntime` -/
  | bind (msg : String) (v : VM)
  | stamp (msg : String) (v : VM)
  | patch (msg : String) (v : VM)
  | detach (msg : String) (v : VM)
  | renew (msg : String)
  | fail (msg : String)
  | releaseLeases
  | clearAgain
  | forgetVM
  | markHibernated
  | finishHibernate
  /-- the deferred recheck that a VM-gone event asked for -/
  | schedule
  | done
deriving DecidableEq, Repr

/-- One call of `hibernate`. `nic` is what the runtime hot-adds when the rollback asks for one. -/
structure Hib where
  pod : Pod
  v : VM
  nic : NetworkConfig
  preCleared : Bool
  pc : HibPC
deriving DecidableEq, Repr

namespace Hib

def dropsNIC (h : Hib) : Bool := shouldDropNICBeforeHibernate h.pod.spec

/-- `failHibernate` puts the prefix before the error. -/
def message (what name err : String) : String :=
  hibernateFailurePrefix ++ (what ++ (name ++ (": " ++ err)))

/-- The entry of `rollbackHibernate`. -/
def rollback (h : Hib) (msg : String) : HibPC := if h.dropsNIC then .addNIC msg else .bind msg h.v

/-- The way out of `rollbackHibernate`. -/
def afterRollback (h : Hib) (msg : String) : HibPC := if h.dropsNIC then .renew msg else .fail msg

def go (h : Hib) (w : World) (pc : HibPC) : Option (World × Hib) := some (w, { h with pc := pc })

def step (w : World) (h : Hib) (r : Reply) : Option (World × Hib) :=
  match h.pc with
  | .startHibernate => h.go (w.onTables (·.startHibernate h.pod.key)) .markHibernating
  | .markHibernating =>
    h.go (w.onTables fun t => (t.applyLifecycleLocked h.pod .hibernating "").1)
      (if h.dropsNIC then .release else .save)
  | .release => h.go w .dropNIC
  | .dropNIC =>
    match w.netResize h.v.id [] r with
    | (w, none) => h.go w .save
    | (w, some e) => h.go w (.renewAfterDrop (message "drop NIC pre-hibernate " h.v.name e))
  | .renewAfterDrop msg => h.go w (.fail msg)
  | .save =>
    match w.snapshotSave h.v.name h.v.id r with
    | (w, none) => h.go w (if w.hasPusher then .push else .clear)
    | (w, some e) => h.go w (h.rollback (message "save snapshot " h.v.name e))
  | .push =>
    match w.pushSnapshot h.v.name h.v.name r with
    | (w, none) => h.go w .clear
    | (w, some e) => h.go w (h.rollback (message "push hibernation snapshot " h.v.name e))
  | .clear =>
    some (w.onTables (·.clearRuntimeAnnotations h.pod),
      -- a superseded pod is left alone and counts as cleared
      { h with
        preCleared := w.tables.supersededLocked h.pod.key h.pod.uid || r.err.isNone
        pc := .remove })
  | .remove =>
    match w.remove h.v.id r with
    | (w, none) => h.go w .releaseLeases
    | (w, some e) =>
      let msg := message "remove vm " h.v.id e
      h.go w (if w.hasRegistry then .deleteManifest msg else h.rollback msg)
  | .deleteManifest msg => h.go (w.deleteManifest h.v.name r).1 (h.rollback msg)
  | .addNIC msg => h.go (w.netResize h.v.id [h.nic] r).1 (.inspectNIC msg)
  | .inspectNIC msg =>
    match w.inspect h.v.id r with
    | .found v => h.go w (.refreshNIC msg (some v))
    | _ => h.go w (.refreshNIC msg none)
  | .refreshNIC msg fresh =>
    match w.tables.updateTrackedVM h.pod.key h.v.id (.rolledBackNIC fresh) with
    | (t, updated) => h.go { w with tables := t } (.bind msg (updated.getD h.v))
  | .bind msg v =>
    match w.tables.trackPodIncarnation h.pod v with
    | (t, true) => h.go { w with tables := t } (.stamp msg v)
    | (t, false) => h.go { w with tables := t } (h.afterRollback msg)
  | .stamp msg v =>
    match w.tables.applyVMRuntime h.pod v.id v.ip with
    | (t, true) => h.go { w with tables := t } (.patch msg v)
    | (t, false) => h.go { w with tables := t } (.detach msg v)
  | .patch msg v => h.go w (if r = .nameTaken then .detach msg v else h.afterRollback msg)
  | .detach msg v =>
    h.go (w.onTables fun t => (t.detachIncarnation h.pod.key h.pod.uid (some v)).1)
      (h.afterRollback msg)
  | .renew msg => h.go w (.fail msg)
  | .fail msg =>
    h.go (w.onTables fun t => (t.applyLifecycleLocked h.pod .failed msg).1) .finishHibernate
  | .releaseLeases =>
    h.go (w.releaseDHCPLeases h.v) (if h.preCleared then .forgetVM else .clearAgain)
  | .clearAgain => h.go (w.onTables (·.clearRuntimeAnnotations h.pod)) .forgetVM
  | .forgetVM => h.go (w.onTables (·.forgetVMOnly h.pod.key)) .markHibernated
  | .markHibernated =>
    h.go (w.onTables fun t => (t.applyLifecycleLocked h.pod .hibernated "").1) .finishHibernate
  | .finishHibernate =>
    match w.tables.finishHibernate h.pod.key with
    | (t, vmGone) => h.go { w with tables := t } (if vmGone then .schedule else .done)
  | .schedule => none
  | .done => none

/-- The critical section a step enters. -/
def op (h : Hib) : Option TableOp :=
  match h.pc with
  | .startHibernate => some (.startHibernate h.pod.key)
  | .markHibernating => some (.setLifecycleState h.pod .hibernating "")
  | .clear | .clearAgain => some (.clearRuntimeAnnotations h.pod)
  | .refreshNIC _ fresh => some (.updateTrackedVM h.pod.key h.v.id (.rolledBackNIC fresh))
  | .bind _ v => some (.trackPodIncarnation h.pod v)
  | .stamp _ v => some (.applyVMRuntime h.pod v.id v.ip)
  | .detach _ v => some (.detachIncarnation h.pod.key h.pod.uid (some v))
  | .fail msg => some (.setLifecycleState h.pod .failed msg)
  | .forgetVM => some (.forgetVMOnly h.pod.key)
  | .markHibernated => some (.setLifecycleState h.pod .hibernated "")
  | .finishHibernate => some (.finishHibernate h.pod.key)
  | _ => none

theorem step_tables {S : Type} [DecidableEq S] (snapshot : LifecycleStatus → S) {w : World}
    {h : Hib} {r : Reply} {s : World × Hib} (hs : h.step w r = some s) :
    s.1.tables = w.tables.runOption snapshot h.op := by
  unfold step at hs
  unfold op
  cases hpc : h.pc with
  | dropNIC =>
    simp only [hpc] at hs
    have ht := w.netResize_tables h.v.id r []
    split at hs <;> next heq => cases hs; rw [heq] at ht; exact ht
  | save =>
    simp only [hpc] at hs
    have ht := w.snapshotSave_tables h.v.id h.v.name r
    split at hs <;> next heq => cases hs; rw [heq] at ht; exact ht
  | push =>
    simp only [hpc] at hs
    have ht := w.pushSnapshot_tables h.v.name r h.v.name
    split at hs <;> next heq => cases hs; rw [heq] at ht; exact ht
  | remove =>
    simp only [hpc] at hs
    have ht := w.remove_tables h.v.id r
    split at hs <;> next heq => cases hs; rw [heq] at ht; exact ht
  | deleteManifest msg =>
    rw [hpc] at hs
    cases hs
    exact w.deleteManifest_tables h.v.name r
  | addNIC msg =>
    rw [hpc] at hs
    cases hs
    exact w.netResize_tables h.v.id r [h.nic]
  | inspectNIC msg =>
    simp only [hpc] at hs
    split at hs <;> cases hs <;> rfl
  | bind msg v =>
    simp only [hpc] at hs
    split at hs <;> next heq => cases hs; simp only [runOption, TableOp.run, heq]
  | stamp msg v =>
    simp only [hpc] at hs
    split at hs <;> next heq => cases hs; simp only [runOption, TableOp.run, heq]
  | schedule | done =>
    rw [hpc] at hs
    cases hs
  | _ =>
    rw [hpc] at hs
    cases hs
    rfl

end Hib

/-! ### Where a step goes -/

/-- From `startHibernate` to `finishHibernate`. -/
def HibPC.inFlight : HibPC → Bool
  | .startHibernate | .schedule | .done => false
  | _ => true

def HibPC.last : HibPC → Bool
  | .finishHibernate => true
  | _ => false

/-- The record that the rollback binds again. -/
def HibPC.vm : HibPC → Option VM
  | .bind _ v | .stamp _ v | .patch _ v | .detach _ v => some v
  | _ => none

/-- A hibernate is in flight after every step but the last, and the record it binds again is
its own VM. -/
structure Hib.Edge (h : Hib) (pc : HibPC) : Prop where
  inFlight : pc.inFlight = !h.pc.last
  vm : ∀ v, pc.vm = some v → v.id = h.v.id ∨ h.pc.vm = some v

namespace Hib

theorem updateTrackedVM_id {t : Tables} {key : Key} {id : VMID} {m : VMMutation} {v : VM}
    (h : (t.updateTrackedVM key id m).2 = some v) : v.id = id := by
  unfold updateTrackedVM at h
  split at h
  next => cases h
  next u hu =>
    split at h
    next => cases h
    next hid =>
      cases h
      have hid : u.id = id := by simpa using hid
      exact (VMMutation_apply_id m u).trans hid

variable {w w' : World} {h : Hib} {r : Reply} {s : World × Hib}

theorem rollback_edge (msg : String) (hl : h.pc.last = false) : h.Edge (h.rollback msg) := by
  unfold rollback
  split
  · exact ⟨by rw [hl]; rfl, fun v hv => by cases hv⟩
  · exact ⟨by rw [hl]; rfl, fun v hv => Or.inl (by cases hv; rfl)⟩

theorem afterRollback_edge (msg : String) (hl : h.pc.last = false) :
    h.Edge (h.afterRollback msg) := by
  unfold afterRollback
  split <;> exact ⟨by rw [hl]; rfl, fun v hv => by cases hv⟩

theorem step_edge (hs : h.step w r = some s) :
    ∃ pc pre, s.2 = { h with pc := pc, preCleared := pre } ∧ h.Edge pc := by
  have hgo : ∀ {w' : World} {pc : HibPC}, h.go w' pc = some s → h.Edge pc →
      ∃ pc pre, s.2 = { h with pc := pc, preCleared := pre } ∧ h.Edge pc := by
    intro w' pc hg he
    cases hg
    exact ⟨pc, h.preCleared, rfl, he⟩
  have hplain : ∀ {pc : HibPC}, pc.inFlight = true → pc.vm = none → h.pc.last = false →
      h.Edge pc := by
    intro pc hf hn hl
    exact ⟨by rw [hf, hl]; rfl, fun v hv => by rw [hn] at hv; cases hv⟩
  unfold step at hs
  cases hpc : h.pc with
  | startHibernate | release | renewAfterDrop | addNIC | renew | fail | clearAgain | forgetVM |
      markHibernated =>
    rw [hpc] at hs
    exact hgo hs (hplain rfl rfl (by rw [hpc]; rfl))
  | markHibernating =>
    rw [hpc] at hs
    refine hgo hs ?_
    split <;> exact hplain rfl rfl (by rw [hpc]; rfl)
  | dropNIC | inspectNIC =>
    simp only [hpc] at hs
    split at hs <;> exact hgo hs (hplain rfl rfl (by rw [hpc]; rfl))
  | save =>
    simp only [hpc] at hs
    split at hs
    · refine hgo hs ?_
      split <;> exact hplain rfl rfl (by rw [hpc]; rfl)
    · exact hgo hs (rollback_edge _ (by rw [hpc]; rfl))
  | push =>
    simp only [hpc] at hs
    split at hs
    · exact hgo hs (hplain rfl rfl (by rw [hpc]; rfl))
    · exact hgo hs (rollback_edge _ (by rw [hpc]; rfl))
  | clear =>
    simp only [hpc] at hs
    cases hs
    exact ⟨.remove, _, rfl, hplain rfl rfl (by rw [hpc]; rfl)⟩
  | remove =>
    simp only [hpc] at hs
    split at hs
    · exact hgo hs (hplain rfl rfl (by rw [hpc]; rfl))
    · refine hgo hs ?_
      split
      · exact hplain rfl rfl (by rw [hpc]; rfl)
      · exact rollback_edge _ (by rw [hpc]; rfl)
  | deleteManifest msg =>
    rw [hpc] at hs
    exact hgo hs (rollback_edge _ (by rw [hpc]; rfl))
  | refreshNIC msg fresh =>
    simp only [hpc] at hs
    refine hgo hs ⟨by rw [hpc]; rfl, fun v hv => Or.inl ?_⟩
    have hv := (Option.some.inj hv).symm
    cases hu : (w.tables.updateTrackedVM h.pod.key h.v.id (.rolledBackNIC fresh)).2 with
    | none =>
      rw [hu] at hv
      rw [hv]
      rfl
    | some u =>
      rw [hu] at hv
      rw [hv]
      exact updateTrackedVM_id hu
  | bind msg v =>
    simp only [hpc] at hs
    split at hs
    · exact hgo hs ⟨by rw [hpc]; rfl, fun u hu => Or.inr (by rw [hpc]; exact hu)⟩
    · exact hgo hs (afterRollback_edge _ (by rw [hpc]; rfl))
  | stamp msg v =>
    simp only [hpc] at hs
    split at hs <;>
      exact hgo hs ⟨by rw [hpc]; rfl, fun u hu => Or.inr (by rw [hpc]; exact hu)⟩
  | patch msg v =>
    simp only [hpc] at hs
    refine hgo hs ?_
    split
    · exact ⟨by rw [hpc]; rfl, fun u hu => Or.inr (by rw [hpc]; exact hu)⟩
    · exact afterRollback_edge _ (by rw [hpc]; rfl)
  | detach msg v =>
    rw [hpc] at hs
    exact hgo hs (afterRollback_edge _ (by rw [hpc]; rfl))
  | releaseLeases =>
    rw [hpc] at hs
    refine hgo hs ?_
    split <;> exact hplain rfl rfl (by rw [hpc]; rfl)
  | finishHibernate =>
    simp only [hpc] at hs
    refine hgo hs ?_
    split <;> exact ⟨by rw [hpc]; rfl, fun v hv => by cases hv⟩
  | schedule | done =>
    rw [hpc] at hs
    cases hs

end Hib

def sampleHib : Hib := ⟨samplePod, sampleVM, ⟨"52:54:00:00:00:02", none⟩, false, .startHibernate⟩

end VkCocoon
