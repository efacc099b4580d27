import VkCocoon.PodCalls
import VkCocoon.Retries

/-!
# updatePod and the retries

`RetryState.updatePod` has what `updatePod` does to the retries that are owed; the sections of
`applyUpdate` and of `CreatePod` are left to its surroundings. A run of `Bring` is a run of it among
the sections of the calls it makes.
-/

namespace VkCocoon
open Lib Tables

/-- A step of `updatePod`, or a section of what it calls. -/
inductive OwedEvent where
  | step (a : RetryAnswer)
  | calls (op : TableOp)

namespace BringPC

/-- The points of `applyUpdate`, when the delay before was `prev`. -/
inductive InApply (prev : ℕ) : BringPC → Prop where
  | apply (v : Option VM) : InApply prev (.apply v prev)
  | republish : InApply prev .republish
  | liftRead : InApply prev (.liftRead (.update prev))
  | liftInspect (v : VM) : InApply prev (.liftInspect v (.update prev))
  | lift : InApply prev (.lift (.update prev))
  | markReady : InApply prev (.markReady false)
  | wakeCreating : InApply prev (.wakeCreating prev)
  | wakeClear : InApply prev (.wakeClear prev)
  | wakeSource : InApply prev (.wakeSource prev)
  | wakeClone : InApply prev (.wakeClone prev)
  | wakeFail (msg : String) : InApply prev (.wakeFail msg prev)
  | bind (v : VM) : InApply prev (.bind v .wake)
  | stamp (v : VM) : InApply prev (.stamp v .wake)
  | patch (v : VM) : InApply prev (.patch v .wake)
  | detach (v : VM) : InApply prev (.detach v)

inductive InCreate : BringPC → Prop where
  | track : InCreate .track
  | markCreating : InCreate .markCreating
  | adopt : InCreate .index
  | inspect (v : VM) (attempt : ℕ) : InCreate (.adoptInspect v attempt)
  | drop (v : VM) : InCreate (.dropIndex v)
  | evidence : InCreate .evidence
  | bringUp (restoring : Bool) : InCreate (.bringUp restoring)
  | seed (v : VM) (restoring : Bool) : InCreate (.seed v restoring)
  | bind (v : VM) (site : BindSite) : InCreate (.bind v site)
  | stamp (v : VM) (site : BindSite) : InCreate (.stamp v site)
  | patch (v : VM) (site : BindSite) : InCreate (.patch v site)
  | detach (v : VM) : InCreate (.detach v)
  | fail (msg : String) : InCreate (.fail msg)
  | failCreate : InCreate .failCreate

/-- The points of `updatePod`. It reads the tables and asks for a wake source in one. -/
inductive Updates (pod : Pod) (t : Tables) : BringPC → Option RetryUpdatePC → Prop where
  | enter : Updates pod t .backoff (some (.enter pod))
  | look : Updates pod t .look (some (.look pod))
  | hasWakeSource (hpod : t.pods.get pod.key = none)
    (hvm : ((t.vmsByPod.get pod.key).isNone && !pod.hibernate) = true) :
    Updates pod t .wakeSourceCheck (some (.look pod))
  | detach (uid : UID) (v : Option VM) : Updates pod t (.detachOld uid v) (some (.detach pod uid v))
  | track (v : Option VM) : Updates pod t (.trackUpdate v) (some (.track pod))
  | takeRetry (v : Option VM) : Updates pod t (.takeRetry v) (some (.takeRetry pod))
  | apply (pc : BringPC) (prev : ℕ) (h : pc.InApply prev) : Updates pod t pc (some (.apply pod prev))
  | retryLater (prev : ℕ) : Updates pod t (.retryLater prev) (some (.retryLater pod prev))
  | create (pc : BringPC) (h : pc.InCreate) : Updates pod t pc (some .create)
  | bound (pc : BringPC) (p : Option RetryUpdatePC) (h : pc.hasBound = true) : Updates pod t pc p
  | done : Updates pod t .done none

end BringPC

section Update
variable {S : Type} [DecidableEq S] (snapshot : LifecycleStatus → S)

/-- `updatePod` of call `i` among the sections of what it calls. -/
def updateCall (i : ℕ) : Machine (RetryState × Option RetryUpdatePC) OwedEvent :=
  ⟨fun s e =>
    match e with
    | .step a => s.2.map fun pc => s.1.updatePod i pc a
    | .calls op => (s.1.env snapshot (.table op)).map fun s' => (s', s.2)⟩

variable {w w' : World} {a : Answer} {b : Bring} {pc' : BringPC} {new : List PodThread} {s : RetryState}
  {p : Option RetryUpdatePC} {prev : ℕ}

/-- The run of `updatePod` that a step of `Bring` is. -/
def UpdateRun (i : ℕ) (b : Bring) (s : RetryState) (p : Option RetryUpdatePC) (w' : World) (pc' : BringPC) : Prop :=
  (updateCall snapshot i).Reaches (s, p) fun c => c.1.tables = w'.tables ∧ pc'.Updates b.pod w'.tables c.2

/- What `updatePod` calls leaves the sections of the retries alone. -/
theorem op_isRetry (hin : b.pc.InApply prev ∨ b.pc.InCreate) : ∀ op, b.op a = some op → op.isRetry = false := by
  intro op hop
  unfold Bring.op at hop
  generalize b.pc = pc at hin hop
  rcases hin with h | h
  all_goals
    cases h
    all_goals cases hop <;> rfl

theorem inApply_step (hin : b.pc.InApply prev) (hstep : b.step w a = some (w', pc', new)) :
    pc'.InApply prev ∨ pc' = .done ∨ pc' = .retryLater prev ∨ pc'.hasBound = true := by
  unfold Bring.step at hstep
  generalize b.pc = pc at hin hstep
  cases hin with
  | apply v =>
    dsimp only at hstep
    split at hstep
    · cases hstep
      exact Or.inl .republish
    · cases v with
      | some v =>
        dsimp only at hstep
        split at hstep
        · cases hstep
          exact Or.inr (Or.inl rfl)
        · cases hstep
          exact Or.inl .liftRead
      | none =>
        cases hstep
        split
        · exact Or.inl .republish
        · split
          · exact Or.inr (Or.inl rfl)
          · exact Or.inl .wakeCreating
  | republish | markReady | detach v =>
    cases hstep
    exact Or.inr (Or.inl rfl)
  | liftRead =>
    dsimp only at hstep
    split at hstep
    · cases hstep
      exact Or.inr (Or.inl rfl)
    · split at hstep
      · cases hstep
        exact Or.inl .republish
      · cases hstep
        split
        · exact Or.inl .lift
        · exact Or.inl (.liftInspect _)
  | liftInspect v =>
    cases hstep
    split
    · exact Or.inl .republish
    · exact Or.inr (Or.inr (Or.inl rfl))
    · split
      · exact Or.inl .lift
      · exact Or.inl .republish
  | lift =>
    cases hlift : w.tables.liftHibernateFailureLocked b.pod with
    | mk t lifted =>
      simp only [hlift] at hstep
      cases hstep
      split
      · exact Or.inl .markReady
      · exact Or.inl .republish
  | wakeCreating =>
    cases hstep
    exact Or.inl .wakeClear
  | wakeClear =>
    cases hstep
    exact Or.inl .wakeSource
  | wakeSource =>
    cases hstep
    cases a.reply.err with
    | none => exact Or.inl .wakeClone
    | some e => exact Or.inl (.wakeFail e)
  | wakeClone =>
    dsimp only at hstep
    split at hstep
    · cases hstep
      exact Or.inl (.bind b.launched)
    · cases hstep
      exact Or.inl (.wakeFail _)
  | wakeFail msg =>
    cases hstep
    exact Or.inr (Or.inr (Or.inl rfl))
  | bind v =>
    cases hstep
    split
    · exact Or.inl (.stamp v)
    · exact Or.inr (Or.inl rfl)
  | stamp v =>
    cases hstep
    split
    · exact Or.inl (.patch v)
    · exact Or.inl (.detach v)
  | patch v =>
    cases hstep
    split
    · exact Or.inl (.detach v)
    · exact Or.inr (Or.inr (Or.inr rfl))

theorem inCreate_step (hin : b.pc.InCreate) (hstep : b.step w a = some (w', pc', new)) :
    pc'.InCreate ∨ pc' = .done ∨ pc'.hasBound = true := by
  unfold Bring.step at hstep
  generalize b.pc = pc at hin hstep
  cases hin with
  | track =>
    cases hstep
    split
    · exact Or.inl .markCreating
    · exact Or.inr (Or.inl rfl)
  | markCreating =>
    cases hstep
    exact Or.inl .adopt
  | adopt =>
    cases hstep
    split
    · split
      · exact Or.inl .evidence
      · exact Or.inl (.inspect _ 0)
    · exact Or.inl .evidence
  | inspect v attempt =>
    cases hstep
    split
    · exact Or.inl (.bind v .adopt)
    · exact Or.inl (.drop v)
    · split
      · exact Or.inl (.inspect v (attempt + 1))
      · exact Or.inl (.fail _)
  | drop v =>
    cases hstep
    exact Or.inl .evidence
  | evidence =>
    cases hstep
    repeat' split
    all_goals first | exact Or.inl (.fail _) | exact Or.inl (.bringUp _)
  | bringUp restoring =>
    dsimp only at hstep
    split at hstep
    · cases hstep
      split
      · exact Or.inl (.fail _)
      · exact Or.inl (.bind _ _)
    · split at hstep
      · cases hstep
        exact Or.inl (.seed _ _)
      · cases hstep
        exact Or.inl (.fail _)
  | seed v restoring =>
    cases hstep
    exact Or.inl (.bind _ _)
  | bind v site =>
    cases hstep
    split
    · exact Or.inl (.stamp v site)
    · exact Or.inr (Or.inl rfl)
  | stamp v site =>
    cases hstep
    split
    · exact Or.inl (.patch v site)
    · exact Or.inl (.detach v)
  | patch v site =>
    cases hstep
    split
    · exact Or.inl (.detach v)
    · exact Or.inr (Or.inr (hasBound_bound v site))
  | fail msg =>
    cases hstep
    exact Or.inl .failCreate
  | detach v | failCreate =>
    cases hstep
    exact Or.inr (Or.inl rfl)

/- The section of a call, if it enters one. -/
theorem calls_run (i : ℕ) {o : Option TableOp} (ho : ∀ op, o = some op → op.isRetry = false) :
    (updateCall snapshot i).Reaches (s, p) fun c => c.1.tables = s.tables.runOption snapshot o ∧ c.2 = p := by
  cases o with
  | none => exact Machine.reaches_here ⟨rfl, rfl⟩
  | some op =>
    have hop := ho op rfl
    have hstep : (updateCall snapshot i).step (s, p) (.calls op) =
        some (s.on (op.run snapshot s.tables) (s.dropped op), p) := by
      cases op <;> first | rfl | cases hop
    exact Machine.reaches_step _ hstep ⟨rfl, rfl⟩

/- `updatePod` waits for what it has called. -/
theorem updateRun_calls (i : ℕ) (hop : ∀ op, b.op a = some op → op.isRetry = false) (ht : s.tables = w.tables)
    (hw : w'.tables = w.tables.runOption snapshot (b.op a)) (hpoint : pc'.Updates b.pod w'.tables p) :
    UpdateRun snapshot i b s p w' pc' := by
  refine (calls_run snapshot i hop).mono ?_
  rintro ⟨s', _⟩ ⟨hs', rfl⟩
  exact ⟨by rw [hs', ht, hw], hpoint⟩

/- What it has called returns, after a last section. -/
theorem updateRun_returns (i : ℕ) (hop : ∀ op, b.op a = some op → op.isRetry = false) (ht : s.tables = w.tables)
    (hw : w'.tables = w.tables.runOption snapshot (b.op a)) {pc : RetryUpdatePC} (ans : RetryAnswer)
    {p' : Option RetryUpdatePC} (hstep : ∀ s : RetryState, s.updatePod i pc ans = (s, p'))
    (hpoint : pc'.Updates b.pod w'.tables p') : UpdateRun snapshot i b s (some pc) w' pc' := by
  refine (calls_run snapshot i hop).seq ?_
  rintro ⟨s', _⟩ ⟨hs', rfl⟩
  refine Machine.reaches_step (.step ans) (congrArg some (hstep s')) ⟨?_, hpoint⟩
  rw [hs', ht, hw]

theorem updateRun_one (i : ℕ) {pc : RetryUpdatePC} (ans : RetryAnswer) {s' : RetryState}
    {p' : Option RetryUpdatePC} (hstep : s.updatePod i pc ans = (s', p')) (ht : s'.tables = w'.tables)
    (hpoint : pc'.Updates b.pod w'.tables p') : UpdateRun snapshot i b s (some pc) w' pc' :=
  Machine.reaches_step (.step ans) (congrArg some hstep) ⟨ht, hpoint⟩

/-- A step of `updatePod` up to the end of a bind is a run of the call that keeps the retries. -/
theorem owed_step_run (i : ℕ) (ht : s.tables = w.tables) (hpoint : b.pc.Updates b.pod w.tables p)
    (hend : b.pc.hasBound = false) (hstep : b.step w a = some (w', pc', new)) :
    UpdateRun snapshot i b s p w' pc' := by
  have hwhole := hstep
  have htables := Bring.step_tables snapshot hstep
  unfold Bring.step at hstep
  generalize hpc : b.pc = pc at hpoint hstep hend
  cases hpoint with
  | enter =>
    cases hstep
    have hupdate : s.updatePod i (.enter b.pod) ⟨0, false, none, false⟩ =
        (s, if w.tables.resumedOps.has b.pod.key then none else some (.look b.pod)) := by
      simp only [RetryState.updatePod, ht, Bool.false_or]
    refine updateRun_one snapshot i _ hupdate ht ?_
    split
    · exact .done
    · exact .look
  | look =>
    cases hstep
    cases hget : w.tables.pods.get b.pod.key with
    | none =>
      dsimp only
      split
      next hvm => exact Machine.reaches_here ⟨ht, .hasWakeSource hget hvm⟩
      next hvm =>
        have hupdate : s.updatePod i (.look b.pod) ⟨0, false, none, false⟩ = (s, some (.track b.pod)) := by
          simp only [RetryState.updatePod, ht, hget, hvm]
          rfl
        exact updateRun_one snapshot i _ hupdate ht (.track _)
    | some tracked =>
      have hupdate : s.updatePod i (.look b.pod) ⟨0, false, none, false⟩ = (s, some (if tracked.uid = b.pod.uid
          then .track b.pod else .detach b.pod tracked.uid (w.tables.vmsByPod.get b.pod.key))) := by
        simp only [RetryState.updatePod, ht, hget]
      refine updateRun_one snapshot i _ hupdate ht ?_
      by_cases hu : tracked.uid = b.pod.uid
      · simp only [hu, bne_self_eq_false, Bool.false_eq_true, if_false, if_true]
        exact .track _
      · simp only [hu, bne_iff_ne, ne_eq, not_false_eq_true, if_false, if_true]
        exact .detach _ _
  | hasWakeSource hpod hvm =>
    have hupdate : ∀ source, s.updatePod i (.look b.pod) ⟨0, false, source, false⟩ =
        (s, source.map fun found => if found then .track b.pod else .create) := by
      intro source
      simp only [RetryState.updatePod, ht, hpod, hvm, if_true]
      rcases source with - | found
      · rfl
      · cases found <;> rfl
    cases hstep
    split
    · exact updateRun_one snapshot i _ (hupdate none) ht .done
    · refine updateRun_one snapshot i _ (hupdate (some (w.hasWakeSource b.pod.spec.vmName))) ht ?_
      cases w.hasWakeSource b.pod.spec.vmName with
      | true => exact .track none
      | false => exact .create .track .track
  | detach uid v =>
    cases hdetach : w.tables.detachIncarnation b.pod.key uid v with
    | mk t detached =>
      simp only [hdetach] at hstep
      cases hstep
      have hupdate : s.updatePod i (.detach b.pod uid v) ⟨0, false, none, false⟩ =
          (s.on t (s.dropped (.detachIncarnation b.pod.key uid v)), if detached then some .create else none) := by
        simp only [RetryState.updatePod, ht, hdetach]
      refine updateRun_one snapshot i _ hupdate rfl ?_
      cases detached with
      | true => exact .create .track .track
      | false => exact .done
  | track v =>
    cases htrack : w.tables.trackPodUnlessDeleting b.pod none with
    | mk t tracked =>
      simp only [htrack] at hstep
      cases hstep
      have hupdate : s.updatePod i (.track b.pod) ⟨0, false, none, false⟩ =
          (s.on t [], if tracked then some (.takeRetry b.pod) else none) := by
        simp only [RetryState.updatePod, ht, htrack]
      refine updateRun_one snapshot i _ hupdate rfl ?_
      cases tracked with
      | true => exact .takeRetry v
      | false => exact .done
  | takeRetry v =>
    cases htake : w.tables.takeOpRetry b.pod.key with
    | mk t prev =>
      simp only [htake] at hstep
      cases hstep
      have hupdate : s.updatePod i (.takeRetry b.pod) ⟨0, false, none, false⟩ =
          (s.on t [.attempt i b.pod.key], some (.apply b.pod prev)) := by
        simp only [RetryState.updatePod, ht, htake]
      exact updateRun_one snapshot i _ hupdate rfl (.apply _ prev (.apply v))
  | apply pc prev hin =>
    subst hpc
    have hop := op_isRetry (a := a) (Or.inl hin)
    have hreturns : ∀ s : RetryState, s.updatePod i (.apply b.pod prev) ⟨0, false, none, false⟩ = (s, none) :=
      fun _ => rfl
    have hfails : ∀ s : RetryState, s.updatePod i (.apply b.pod prev) ⟨0, false, none, true⟩ =
        (s, some (.retryLater b.pod prev)) := fun _ => rfl
    rcases inApply_step hin hwhole with hin' | rfl | rfl | hbound
    · exact updateRun_calls snapshot i hop ht htables (.apply pc' prev hin')
    · exact updateRun_returns snapshot i hop ht htables _ hreturns .done
    · exact updateRun_returns snapshot i hop ht htables _ hfails (.retryLater prev)
    · exact updateRun_calls snapshot i hop ht htables (.bound pc' _ hbound)
  | retryLater prev =>
    cases hstep
    refine updateRun_one snapshot i ⟨a.now, false, none, false⟩ rfl ?_ .done
    simp only [RetryState.on, ht, World.onTables]
  | create pc hin =>
    subst hpc
    have hcalls : b.pc.InApply 0 ∨ b.pc.InCreate := Or.inr hin
    have hop := op_isRetry (a := a) hcalls
    have hreturns : ∀ s : RetryState, s.updatePod i .create ⟨0, false, none, false⟩ = (s, none) := fun _ => rfl
    rcases inCreate_step hin hwhole with hin' | rfl | hbound
    · exact updateRun_calls snapshot i hop ht htables (.create pc' hin')
    · exact updateRun_returns snapshot i hop ht htables _ hreturns .done
    · exact updateRun_calls snapshot i hop ht htables (.bound pc' _ hbound)
  | bound pc p hbound =>
    rw [hbound] at hend
    cases hend
  | done => cases hstep

/-- A run of `updatePod` up to the end of a bind is one of the call that keeps the retries. -/
theorem owed_run (i : ℕ) {b' : Bring} {as : List Answer} (ht : s.tables = w.tables)
    (hpoint : b.pc.Updates b.pod w.tables p)
    (hend : bringCall.Guarded (fun c _ => c.2.pc.hasBound = false) (w, b) as)
    (hrun : bringCall.exec (w, b) as = some (w', b')) : UpdateRun snapshot i b' s p w' b'.pc := by
  let R : World × Bring → RetryState × Option RetryUpdatePC → Prop := fun c d =>
    d.1.tables = c.1.tables ∧ c.2.pc.Updates c.2.pod c.1.tables d.2
  have hsim : ∀ c ans c' d, R c d → c.2.pc.hasBound = false → bringCall.step c ans = some c' →
      (updateCall snapshot i).Reaches d (R c') := by
    rintro ⟨w₁, b₁⟩ ans ⟨w₂, b₂⟩ d ⟨ht₁, hpoint₁⟩ hend₁ hstep
    obtain ⟨pc₂, new, hbring, rfl⟩ := bringCall_step hstep
    have hrun₁ : UpdateRun snapshot i b₁ d.1 d.2 w₂ pc₂ := owed_step_run snapshot i ht₁ hpoint₁ hend₁ hbring
    exact hrun₁
  have hstart : R (w, b) (s, p) := ⟨ht, hpoint⟩
  exact bringCall.exec_simulates hsim hstart hend hrun

end Update

end VkCocoon
