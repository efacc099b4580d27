import VkCocoon.Hibernate

/-!
# Hibernate and the guest

The guest exists as a VM in the runtime or as the snapshot that this run saved, under
the hibernate tag of the registry. Each external call of a run happens at most once,
so a combination of outcomes is one `Reply` for each of them.
-/

namespace VkCocoon
open Lib Tables

/-- What each external call of one hibernate run answers. -/
structure Outcomes where
  dropNIC : Reply
  save : Reply
  push : Reply
  clear : Reply
  remove : Reply
  deleteManifest : Reply
  addNIC : Reply
  inspect : Reply
  patch : Reply
deriving DecidableEq

namespace Outcomes

def reply (o : Outcomes) : HibPC → Reply
  | .dropNIC => o.dropNIC
  | .save => o.save
  | .push => o.push
  | .clear => o.clear
  | .remove => o.remove
  | .deleteManifest _ => o.deleteManifest
  | .addNIC _ => o.addNIC
  | .inspectNIC _ => o.inspect
  | .patch .. => o.patch
  | _ => .ok

/-- The run after `n` steps, or where it ended. -/
def run (o : Outcomes) : ℕ → World × Hib → World × Hib
  | 0, s => s
  | n + 1, s =>
    match Hib.step s.1 s.2 (o.reply s.2.pc) with
    | some s' => run o n s'
    | none => s

/-- The run gets to the remove, the remove reports an error after the VM is gone, and the
compensating delete of the tag takes effect. -/
def LosesGuest (o : Outcomes) (h : Hib) : Prop :=
  (h.dropsNIC = true → o.dropNIC = .ok) ∧ o.save = .ok ∧ o.push = .ok ∧
  o.remove.err.isSome = true ∧ o.remove.lands = true ∧ o.deleteManifest.lands = true

instance (o : Outcomes) (h : Hib) : Decidable (o.LosesGuest h) := by
  unfold LosesGuest
  infer_instance

end Outcomes

/-- A snapshot of `id` saved when `n` or more snapshots had been taken. -/
def Snap.From (s : Snap) (id : VMID) (n : ℕ) : Prop := s.vm = id ∧ n ≤ s.serial

/-- `name:hibernate` names a snapshot of `id` from this run. -/
def Tagged (w : World) (v : VM) (n : ℕ) : Prop :=
  ∃ s, w.hibernateTags.get v.name = some s ∧ s.From v.id n

/-- The VM is in the runtime, or the registry has the guest. -/
def GuestKept (w : World) (v : VM) (n : ℕ) : Prop := w.runtime.has v.id = true ∨ Tagged w v n

section
variable {w w' : World} {v : VM} {n : ℕ}

/- What the calls keep. -/

theorem netResize_has (w : World) (id a : VMID) (nics : List NetworkConfig) (r : Reply) :
    (w.netResize id nics r).1.runtime.has a = w.runtime.has a := by
  unfold World.netResize
  cases hv : w.runtime.get id with
  | none => rfl
  | some v =>
    dsimp only
    split
    · rw [GoMap.has_set]
      by_cases ha : a = id
      · subst ha
        simp [GoMap.has, hv]
      · simp [ha]
    · rfl

theorem netResize_tags (w : World) (id : VMID) (nics : List NetworkConfig) (r : Reply) :
    (w.netResize id nics r).1.hibernateTags = w.hibernateTags := by
  unfold World.netResize
  split
  · rfl
  · dsimp only
    split <;> rfl

theorem netResize_err (w : World) (id : VMID) (nics : List NetworkConfig) (r : Reply)
    (hv : w.runtime.has id = true) : (w.netResize id nics r).2 = r.err := by
  obtain ⟨v, hv⟩ := (GoMap.has_iff _ _).mp hv
  simp only [World.netResize, hv]

theorem netResize_kept (hk : GuestKept w v n) (id : VMID) (nics : List NetworkConfig) (r : Reply) :
    GuestKept (w.netResize id nics r).1 v n := by
  refine hk.imp (fun h => ?_) (fun h => ?_)
  · rw [netResize_has]
    exact h
  · unfold Tagged
    rw [netResize_tags]
    exact h

/-- The configuration stays and the snapshot counter does not go back. -/
structure World.Extends (w w' : World) : Prop where
  pusher : w'.hasPusher = w.hasPusher
  registry : w'.hasRegistry = w.hasRegistry
  nextSnap : w.nextSnap ≤ w'.nextSnap

theorem World.Extends.refl (w : World) : w.Extends w := ⟨rfl, rfl, le_rfl⟩

theorem netResize_extends (w : World) (id : VMID) (nics : List NetworkConfig) (r : Reply) :
    w.Extends (w.netResize id nics r).1 := by
  unfold World.netResize
  split
  · exact .refl w
  · dsimp only
    split <;> exact ⟨rfl, rfl, le_rfl⟩

/- A save keeps the VM, and one that reports success leaves a snapshot from this run. -/
theorem snapshotSave_spec (w : World) (v : VM) (r : Reply) {n : ℕ} (hn : n ≤ w.nextSnap)
    (hv : w.runtime.has v.id = true) :
    w.Extends (w.snapshotSave v.name v.id r).1 ∧
    (w.snapshotSave v.name v.id r).1.runtime.has v.id = true ∧
    (w.snapshotSave v.name v.id r).2 = r.err ∧
    (r = .ok → ∃ s, (w.snapshotSave v.name v.id r).1.localSnapshots.get v.name = some s ∧
      s.From v.id n) := by
  unfold World.snapshotSave
  by_cases htaken : r = .nameTaken
  · rw [if_pos htaken]
    exact ⟨⟨rfl, rfl, le_rfl⟩, hv, rfl, fun hok => by rw [hok] at htaken; cases htaken⟩
  rw [if_neg htaken, if_pos hv]
  dsimp only
  refine ⟨?_, ?_, rfl, ?_⟩
  · split
    · exact ⟨rfl, rfl, Nat.le_succ _⟩
    · exact .refl w
  · split <;> exact hv
  · rintro rfl
    exact ⟨⟨w.nextSnap, v.id⟩, GoMap.get_set_self _ _ _, rfl, hn⟩

/- A push keeps the VM, and one that reports success tags the snapshot that was saved. -/
theorem pushSnapshot_spec (w : World) (v : VM) (r : Reply) {n : ℕ}
    (hv : w.runtime.has v.id = true)
    (hs : ∃ s, w.localSnapshots.get v.name = some s ∧ s.From v.id n) :
    w.Extends (w.pushSnapshot v.name v.name r).1 ∧
    (w.pushSnapshot v.name v.name r).1.runtime.has v.id = true ∧
    (w.pushSnapshot v.name v.name r).2 = r.err ∧
    (r = .ok → Tagged (w.pushSnapshot v.name v.name r).1 v n) := by
  obtain ⟨s, hs, hf⟩ := hs
  unfold World.pushSnapshot
  rw [hs]
  dsimp only
  refine ⟨?_, ?_, rfl, ?_⟩
  · split
    · exact ⟨rfl, rfl, le_rfl⟩
    · exact .refl w
  · split <;> exact hv
  · rintro rfl
    exact ⟨s, GoMap.get_set_self _ _ _, hf⟩

theorem Reply.eq_ok_of_err {r : Reply} (h : r.err = none) : r = .ok := by
  cases r <;> first | rfl | cases h

/-! ### The invariant by program point -/

/-- What holds at each program point of a run that does not lose its guest. -/
def Stage (o : Outcomes) (v : VM) (n : ℕ) (w : World) : HibPC → Prop
  | .startHibernate | .markHibernating | .release | .dropNIC | .save => w.runtime.has v.id = true
  | .push => w.runtime.has v.id = true ∧ ∃ s, w.localSnapshots.get v.name = some s ∧ s.From v.id n
  | .clear | .remove => w.runtime.has v.id = true ∧ Tagged w v n
  | .deleteManifest _ => w.runtime.has v.id = true ∨ (Tagged w v n ∧ o.deleteManifest.lands = false)
  | .releaseLeases | .clearAgain | .forgetVM | .markHibernated => Tagged w v n
  | _ => GuestKept w v n

/- Past the remove there are only points that ask for the guest to be kept. -/
theorem Stage.kept {o : Outcomes} {pc : HibPC} (h : Stage o v n w pc) : GuestKept w v n := by
  cases pc <;> first | exact h | exact Or.inl h | exact Or.inl h.1 | exact Or.inr h |
    exact h.imp id And.left

/-- What the calls before a program point have answered. -/
def Past (o : Outcomes) (h : Hib) : HibPC → Prop
  | .save => h.dropsNIC = true → o.dropNIC = .ok
  | .push => (h.dropsNIC = true → o.dropNIC = .ok) ∧ o.save = .ok
  | .clear | .remove => (h.dropsNIC = true → o.dropNIC = .ok) ∧ o.save = .ok ∧ o.push = .ok
  | _ => True

structure RunInv (o : Outcomes) (h₀ : Hib) (n : ℕ) (s : World × Hib) : Prop where
  v : s.2.v = h₀.v
  pod : s.2.pod = h₀.pod
  pusher : s.1.hasPusher = true
  registry : s.1.hasRegistry = true
  nextSnap : n ≤ s.1.nextSnap
  past : Past o h₀ s.2.pc
  stage : Stage o h₀.v n s.1 s.2.pc

theorem RunInv.go {o : Outcomes} {h₀ h : Hib} {pc : HibPC} {s' : World × Hib}
    (hi : RunInv o h₀ n (w, h)) (hgo : h.go w' pc = some s') (he : w.Extends w')
    (hp : Past o h₀ pc) (hs : Stage o h₀.v n w' pc) : RunInv o h₀ n s' := by
  cases hgo
  exact ⟨hi.v, hi.pod, he.pusher.trans hi.pusher, he.registry.trans hi.registry,
    hi.nextSnap.trans he.nextSnap, hp, hs⟩

theorem Hib.rollback_stage {o : Outcomes} {h : Hib} (msg : String) (hk : GuestKept w v n) :
    Stage o v n w (h.rollback msg) := by
  unfold Hib.rollback
  split <;> exact hk

theorem Hib.rollback_past {o : Outcomes} {h₀ h : Hib} (msg : String) :
    Past o h₀ (h.rollback msg) := by
  unfold Hib.rollback
  split <;> exact trivial

theorem Hib.afterRollback_past {o : Outcomes} {h₀ h : Hib} (msg : String) :
    Past o h₀ (h.afterRollback msg) := by
  unfold Hib.afterRollback
  split <;> exact trivial

theorem Hib.afterRollback_stage {o : Outcomes} {h : Hib} (msg : String) (hk : GuestKept w v n) :
    Stage o v n w (h.afterRollback msg) := by
  unfold Hib.afterRollback
  split <;> exact hk

/- One step of a run whose outcomes do not lose the guest. -/
theorem step_runInv {o : Outcomes} {h₀ h : Hib} {s' : World × Hib} (hsafe : ¬ o.LosesGuest h₀)
    (hi : RunInv o h₀ n (w, h)) (hstep : Hib.step w h (o.reply h.pc) = some s') :
    RunInv o h₀ n s' := by
  have hv : h.v = h₀.v := hi.v
  have hd : h.dropsNIC = h₀.dropsNIC := by unfold Hib.dropsNIC; rw [hi.pod]
  have hpast : Past o h₀ h.pc := hi.past
  have hstage : Stage o h₀.v n w h.pc := hi.stage
  unfold Hib.step at hstep
  cases hpc : h.pc with
  | startHibernate =>
    rw [hpc] at hstep hstage
    exact hi.go hstep ⟨rfl, rfl, le_rfl⟩ trivial hstage
  | markHibernating =>
    rw [hpc] at hstep hstage
    refine hi.go hstep ⟨rfl, rfl, le_rfl⟩ ?_ ?_
    · split
      · exact trivial
      next hno => exact fun h => absurd (hd.trans h) hno
    · split <;> exact hstage
  | release =>
    rw [hpc] at hstep hstage
    exact hi.go hstep (.refl w) trivial hstage
  | dropNIC =>
    simp only [hpc, hv, Outcomes.reply] at hstep
    rw [hpc] at hstage
    have hext := netResize_extends w h₀.v.id [] o.dropNIC
    have herr := netResize_err w h₀.v.id [] o.dropNIC hstage
    have hhas : (w.netResize h₀.v.id [] o.dropNIC).1.runtime.has h₀.v.id = true := by
      rw [netResize_has]
      exact hstage
    split at hstep
    next w₁ heq =>
      rw [heq] at hext hhas herr
      exact hi.go hstep hext (fun _ => Reply.eq_ok_of_err herr.symm) hhas
    next w₁ e heq =>
      rw [heq] at hext hhas
      exact hi.go hstep hext trivial (Or.inl hhas)
  | renewAfterDrop msg =>
    rw [hpc] at hstep hstage
    exact hi.go hstep (.refl w) trivial hstage
  | save =>
    simp only [hpc, hv, Outcomes.reply] at hstep
    rw [hpc] at hstage hpast
    obtain ⟨hext, hhas, herr, hsaved⟩ := snapshotSave_spec w h₀.v o.save hi.nextSnap hstage
    split at hstep
    next w₁ heq =>
      rw [heq] at hext hhas herr hsaved
      have hok := Reply.eq_ok_of_err herr.symm
      rw [if_pos (hext.pusher.trans hi.pusher)] at hstep
      exact hi.go hstep hext ⟨hpast, hok⟩ ⟨hhas, hsaved hok⟩
    next w₁ e heq =>
      rw [heq] at hext hhas
      exact hi.go hstep hext (Hib.rollback_past _) (Hib.rollback_stage _ (Or.inl hhas))
  | push =>
    simp only [hpc, hv, Outcomes.reply] at hstep
    rw [hpc] at hstage hpast
    obtain ⟨hext, hhas, herr, htag⟩ := pushSnapshot_spec w h₀.v o.push hstage.1 hstage.2
    split at hstep
    next w₁ heq =>
      rw [heq] at hext hhas herr htag
      have hok := Reply.eq_ok_of_err herr.symm
      exact hi.go hstep hext ⟨hpast.1, hpast.2, hok⟩ ⟨hhas, htag hok⟩
    next w₁ e heq =>
      rw [heq] at hext hhas
      exact hi.go hstep hext (Hib.rollback_past _) (Hib.rollback_stage _ (Or.inl hhas))
  | clear =>
    rw [hpc] at hstep hstage hpast
    cases hstep
    exact ⟨hi.v, hi.pod, hi.pusher, hi.registry, hi.nextSnap, hpast, hstage⟩
  | remove =>
    rw [hpc] at hstage hpast
    simp only [hpc, hv, Outcomes.reply] at hstep
    have hext : w.Extends (w.remove h₀.v.id o.remove).1 := by
      unfold World.remove
      split <;> exact ⟨rfl, rfl, le_rfl⟩
    have htag : Tagged (w.remove h₀.v.id o.remove).1 h₀.v n := by
      unfold World.remove
      split <;> exact hstage.2
    split at hstep
    next w₁ heq =>
      rw [heq] at hext htag
      exact hi.go hstep hext trivial htag
    next w₁ e heq =>
      have herr : o.remove.err = some e := congrArg Prod.snd heq
      rw [heq] at hext htag
      rw [if_pos (hext.registry.trans hi.registry)] at hstep
      refine hi.go hstep hext trivial ?_
      -- either the VM is still there, or the tag delete must not take effect
      by_cases hl : o.remove.lands = true
      · refine Or.inr ⟨htag, ?_⟩
        by_contra hdel
        exact hsafe ⟨hpast.1, hpast.2.1, hpast.2.2, by rw [herr]; rfl, hl, by simpa using hdel⟩
      · left
        have hw : w₁ = w := by
          rw [show w₁ = (w.remove h₀.v.id o.remove).1 by rw [heq]]
          unfold World.remove
          rw [if_neg hl]
        rw [hw]
        exact hstage.1
  | deleteManifest msg =>
    rw [hpc] at hstep hstage
    simp only [hv, Outcomes.reply] at hstep
    have hext : w.Extends (w.deleteManifest h₀.v.name o.deleteManifest).1 := by
      unfold World.deleteManifest
      split <;> exact ⟨rfl, rfl, le_rfl⟩
    have hkept : GuestKept (w.deleteManifest h₀.v.name o.deleteManifest).1 h₀.v n := by
      unfold World.deleteManifest
      rcases hstage with hhas | ⟨htag, hno⟩
      · left
        split <;> exact hhas
      · right
        rw [hno]
        exact htag
    exact hi.go hstep hext (Hib.rollback_past _) (Hib.rollback_stage _ hkept)
  | addNIC msg =>
    rw [hpc] at hstep hstage
    simp only [hv, Outcomes.reply] at hstep
    exact hi.go hstep (netResize_extends _ _ _ _) trivial (netResize_kept hstage _ _ _)
  | inspectNIC msg =>
    rw [hpc] at hstep hstage
    dsimp only at hstep
    split at hstep <;> exact hi.go hstep (.refl w) trivial hstage
  | refreshNIC msg fresh =>
    rw [hpc] at hstep hstage
    exact hi.go hstep ⟨rfl, rfl, le_rfl⟩ trivial hstage
  | bind msg v =>
    rw [hpc] at hstep hstage
    dsimp only at hstep
    split at hstep
    · exact hi.go hstep ⟨rfl, rfl, le_rfl⟩ trivial hstage
    · exact hi.go hstep ⟨rfl, rfl, le_rfl⟩ (Hib.afterRollback_past _)
        (Hib.afterRollback_stage _ hstage)
  | stamp msg v =>
    rw [hpc] at hstep hstage
    dsimp only at hstep
    split at hstep <;> exact hi.go hstep ⟨rfl, rfl, le_rfl⟩ trivial hstage
  | patch msg v =>
    rw [hpc] at hstep hstage
    dsimp only at hstep
    split at hstep
    · exact hi.go hstep (.refl w) trivial hstage
    · exact hi.go hstep (.refl w) (Hib.afterRollback_past _) (Hib.afterRollback_stage _ hstage)
  | detach msg v =>
    rw [hpc] at hstep hstage
    exact hi.go hstep ⟨rfl, rfl, le_rfl⟩ (Hib.afterRollback_past _)
      (Hib.afterRollback_stage _ hstage)
  | renew msg =>
    rw [hpc] at hstep hstage
    exact hi.go hstep (.refl w) trivial hstage
  | fail msg =>
    rw [hpc] at hstep hstage
    exact hi.go hstep ⟨rfl, rfl, le_rfl⟩ trivial hstage
  | releaseLeases =>
    rw [hpc] at hstep hstage
    refine hi.go hstep ⟨rfl, rfl, le_rfl⟩ ?_ ?_
    · split <;> exact trivial
    · split <;> exact hstage
  | clearAgain =>
    rw [hpc] at hstep hstage
    exact hi.go hstep ⟨rfl, rfl, le_rfl⟩ trivial hstage
  | forgetVM =>
    rw [hpc] at hstep hstage
    exact hi.go hstep ⟨rfl, rfl, le_rfl⟩ trivial hstage
  | markHibernated =>
    rw [hpc] at hstep hstage
    exact hi.go hstep ⟨rfl, rfl, le_rfl⟩ trivial (Or.inr hstage)
  | finishHibernate =>
    rw [hpc] at hstep hstage
    refine hi.go hstep ⟨rfl, rfl, le_rfl⟩ ?_ ?_
    · split <;> exact trivial
    · split <;> exact hstage
  | schedule =>
    rw [hpc] at hstep
    cases hstep
  | done =>
    rw [hpc] at hstep
    cases hstep

theorem run_runInv {o : Outcomes} {h₀ : Hib} (hsafe : ¬ o.LosesGuest h₀) (k : ℕ) :
    ∀ s, RunInv o h₀ n s → RunInv o h₀ n (o.run k s) := by
  induction k with
  | zero => exact fun s hi => hi
  | succ k ih =>
    intro s hi
    unfold Outcomes.run
    split
    next s' hstep => exact ih s' (step_runInv hsafe hi hstep)
    next => exact hi

/-! ### The losing runs -/

/-- Some state of the run has neither the VM nor its snapshot. -/
def Outcomes.Loses (o : Outcomes) (v : VM) (n : ℕ) (s : World × Hib) : Prop :=
  ∃ k, ¬ GuestKept (o.run k s).1 v n

theorem Outcomes.Loses.of_step {o : Outcomes} {s : World × Hib} (s' : World × Hib)
    (hstep : Hib.step s.1 s.2 (o.reply s.2.pc) = some s') (hl : o.Loses v n s') :
    o.Loses v n s := by
  obtain ⟨k, hk⟩ := hl
  refine ⟨k + 1, ?_⟩
  unfold Outcomes.run
  rw [hstep]
  exact hk

section Losing
variable {o : Outcomes} {h : Hib}

theorem loses_of_remove (hl : o.LosesGuest h) (hr : w.hasRegistry = true) :
    o.Loses h.v n (w, { h with pc := .remove }) := by
  obtain ⟨-, -, -, herr, hlands, hdel⟩ := hl
  obtain ⟨e, herr⟩ := Option.isSome_iff_exists.mp herr
  have hremove : w.remove h.v.id o.remove =
      ({ w with runtime := w.runtime.del h.v.id }, some e) := by
    unfold World.remove
    rw [if_pos hlands, herr]
  refine .of_step ({ w with runtime := w.runtime.del h.v.id },
    { h with pc := .deleteManifest (Hib.message "remove vm " h.v.id e) }) ?_ ?_
  · simp only [Hib.step, Outcomes.reply, hremove, hr, if_true]
    rfl
  · refine ⟨1, ?_⟩
    simp only [Outcomes.run, Hib.step, Hib.go, Outcomes.reply, World.deleteManifest, hdel, if_true]
    rintro (hhas | ⟨s, hs, -⟩)
    · rw [GoMap.has_del] at hhas
      simp at hhas
    · rw [GoMap.get_del_self] at hs
      cases hs

theorem loses_of_save (hl : o.LosesGuest h) (hv : w.runtime.has h.v.id = true)
    (hp : w.hasPusher = true) (hr : w.hasRegistry = true) :
    o.Loses h.v n (w, { h with pc := .save }) := by
  obtain ⟨hext, -, herr, hsaved⟩ := snapshotSave_spec w h.v o.save (Nat.zero_le _) hv
  obtain ⟨snap, hsnap, -⟩ := hsaved hl.2.1
  rw [hl.2.1] at hext herr hsnap
  have hsave : w.snapshotSave h.v.name h.v.id .ok =
    ((w.snapshotSave h.v.name h.v.id .ok).1, none) := Prod.ext rfl herr
  generalize (w.snapshotSave h.v.name h.v.id .ok).1 = w₁ at hext hsnap hsave
  refine .of_step (w₁, { h with pc := .push }) ?_ ?_
  · simp only [Hib.step, Outcomes.reply, hl.2.1, hsave, hext.pusher.trans hp, if_true]
    rfl
  refine .of_step ({ w₁ with hibernateTags := w₁.hibernateTags.set h.v.name snap },
    { h with pc := .clear }) ?_ ?_
  · simp only [Hib.step, Outcomes.reply, hl.2.2.1, World.pushSnapshot, hsnap]
    rfl
  refine .of_step _ rfl ?_
  exact loses_of_remove (h := { h with preCleared := _ }) hl (hext.registry.trans hr)

theorem loses_of_dropNIC (hl : o.LosesGuest h) (hd : h.dropsNIC = true)
    (hv : w.runtime.has h.v.id = true) (hp : w.hasPusher = true) (hr : w.hasRegistry = true) :
    o.Loses h.v n (w, { h with pc := .dropNIC }) := by
  have hext := netResize_extends w h.v.id [] o.dropNIC
  have hhas := netResize_has w h.v.id h.v.id [] o.dropNIC
  have hnone : (w.netResize h.v.id [] o.dropNIC).2 = none := by
    rw [netResize_err w h.v.id [] o.dropNIC hv, hl.1 hd]
    rfl
  have hdrop : w.netResize h.v.id [] o.dropNIC =
    ((w.netResize h.v.id [] o.dropNIC).1, none) := Prod.ext rfl hnone
  generalize (w.netResize h.v.id [] o.dropNIC).1 = w₁ at hext hhas hdrop
  refine .of_step (w₁, { h with pc := .save }) ?_ ?_
  · simp only [Hib.step, Outcomes.reply, hdrop]
    rfl
  · exact loses_of_save hl (hhas.trans hv) (hext.pusher.trans hp) (hext.registry.trans hr)

theorem loses_of_losesGuest (hl : o.LosesGuest h) (hpc : h.pc = .startHibernate)
    (hv : w.runtime.has h.v.id = true) (hp : w.hasPusher = true) (hr : w.hasRegistry = true) :
    o.Loses h.v n (w, h) := by
  refine .of_step (w.onTables (·.startHibernate h.pod.key), { h with pc := .markHibernating })
    (by simp only [Hib.step, hpc]; rfl) ?_
  refine .of_step _ rfl ?_
  have hdrops : Hib.dropsNIC { h with pc := .markHibernating } = h.dropsNIC := rfl
  rw [hdrops]
  by_cases hd : h.dropsNIC = true
  · rw [if_pos hd]
    exact .of_step _ rfl (loses_of_dropNIC hl hd hv hp hr)
  · rw [if_neg hd]
    exact loses_of_save hl hv hp hr

end Losing

/-! ### Which outcomes keep the guest -/

/-- After every step of `hibernate`, rollback included, the VM is in the runtime or the
hibernate tag names the snapshot of this run, unless the remove fails after the VM is gone
and the tag is then deleted. -/
theorem hibernate_keeps_guest_iff (w : World) (h : Hib) (o : Outcomes)
    (hpc : h.pc = .startHibernate) (hv : w.runtime.has h.v.id = true)
    (hp : w.hasPusher = true) (hr : w.hasRegistry = true) :
    (∀ k, GuestKept (o.run k (w, h)).1 h.v w.nextSnap) ↔ ¬ o.LosesGuest h := by
  constructor
  · intro hkept hl
    obtain ⟨k, hk⟩ := loses_of_losesGuest (n := w.nextSnap) hl hpc hv hp hr
    exact hk (hkept k)
  · intro hsafe k
    have hstart : RunInv o h w.nextSnap (w, h) :=
      ⟨rfl, rfl, hp, hr, le_rfl, by rw [hpc]; trivial, by rw [hpc]; exact hv⟩
    exact (run_runInv hsafe k _ hstart).stage.kept

/- The push fails, the rollback binds the VM again, and the run ends with the VM in place. -/
def failedPush : Outcomes := ⟨.ok, .ok, .failedAfter "timeout", .ok, .ok, .ok, .ok, .ok, .ok⟩

theorem hibernate_keeps_guest_failed_push :
    (failedPush.run 12 (sampleWorld, sampleHib)).2.pc = .done ∧
    GuestKept (failedPush.run 12 (sampleWorld, sampleHib)).1 sampleVM 0 := by
  have hiff := hibernate_keeps_guest_iff sampleWorld sampleHib failedPush rfl (by decide) rfl rfl
  exact ⟨by decide, hiff.mpr (by decide) 12⟩

/- `Runtime.Remove` times out after the VM is gone; the rollback deletes the tag. -/
theorem hibernate_loses_guest_ambiguous_remove :
    ¬ ∀ (w : World) (h : Hib) (o : Outcomes), h.pc = .startHibernate →
      w.runtime.has h.v.id = true → w.hasPusher = true → w.hasRegistry = true →
      ∀ k, GuestKept (o.run k (w, h)).1 h.v w.nextSnap := by
  intro hall
  let o : Outcomes := ⟨.ok, .ok, .ok, .ok, .failedAfter "timeout", .ok, .ok, .ok, .ok⟩
  have hvm : (o.run 7 (sampleWorld, sampleHib)).1.runtime.has "vm1" = false := by decide
  have htag : (o.run 7 (sampleWorld, sampleHib)).1.hibernateTags.get "vk-a" = none := by decide
  rcases hall sampleWorld sampleHib o rfl (by decide) rfl rfl 7 with hhas | ⟨s, hs, -⟩
  · rw [show sampleHib.v.id = "vm1" from rfl, hvm] at hhas
    cases hhas
  · rw [show sampleHib.v.name = "vk-a" from rfl, htag] at hs
    cases hs

end
end VkCocoon
