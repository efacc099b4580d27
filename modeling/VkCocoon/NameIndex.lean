import VkCocoon.NameIndex.Fleet

/-!
# Launched VMs stay reachable

The calls of `NameIndex.Fleet` run in any interleaving. What a call knows at each of its points is
left to it by the others; a delete has its key to itself from its claim on.
-/

namespace VkCocoon
open Lib Tables

/-! ### The calls -/

/-- `DeletePod` from its claim of the key to the end. -/
def FleetPC.fences : FleetPC → Bool
  | .backoff | .vmForPod | .save _ | .remove _ | .forget | .finish => true
  | _ => false

namespace Fleet

/-- `v` can be given to `bindRuntime`. -/
def Bindable (f : Fleet) (v : VM) : Prop := f.Known v ∧ v.name ≠ ""

/-- `trackPodIncarnation` has left `v` in the name index. -/
def Tracked (f : Fleet) (v : VM) : Prop := f.Bindable v ∧ (f.live.has v.id = true → f.Indexes v)

end Fleet

/-- What a call knows at each of its points. -/
def FleetCall.Fits (f : Fleet) (x : FleetCall) : Prop :=
  match x.pc with
  | .replace _ v => ∀ w, v = some w → f.Known w
  | .adopt | .bringUp => x.pod.spec.vmName ≠ ""
  | .inspect v => f.Bindable v ∧ x.pod.spec.vmName ≠ ""
  | .drop v => f.Known v ∧ f.live.has v.id = false ∧ x.pod.spec.vmName ≠ ""
  | .bind v => f.Bindable v
  | .stamp v | .patch v | .detach v | .ended v => f.Tracked v
  | .save v | .remove v => ∀ r, f.tables.vmsByPod.get x.pod.key = some r → r.id = v.id
  | .forget => ∀ r, f.tables.vmsByPod.get x.pod.key = some r → f.live.has r.id = false
  | _ => True

namespace FleetCall
variable {f f' : Fleet} {x : FleetCall} {a : FleetAnswer} {pc' : FleetPC} {v : VM}

theorem bindable_onto (ho : f.Onto f') (h : f.Bindable v) : f'.Bindable v := ⟨ho.made v h.1, h.2⟩

theorem tracked_onto (ho : f.Onto f') (h : f.Tracked v) : f'.Tracked v := by
  refine ⟨bindable_onto ho h.1, fun hl => ho.index v h.1.1 hl (h.2 ?_)⟩
  by_contra hgone
  rw [ho.gone v h.1.1 (by simpa using hgone)] at hl
  cases hl

/- What is known at a point stays known while others move. -/
theorem Fits.onto (hx : x.Fits f) (hf : f.Sound)
    (hfence : x.pc.fences = true → f.tables.deleting.has x.pod.key = true) (ho : f.Onto f') :
    x.Fits f' := by
  obtain ⟨pod, pc⟩ := x
  cases pc with
  | replace uid v => exact fun w hw => ho.made w (hx w hw)
  | inspect v => exact ⟨bindable_onto ho hx.1, hx.2⟩
  | drop v => exact ⟨ho.made v hx.1, ho.gone v hx.1 hx.2.1, hx.2.2⟩
  | bind v => exact bindable_onto ho hx
  | stamp v | patch v | detach v | ended v => exact tracked_onto ho hx
  | save v | remove v =>
    intro r' hr'
    obtain ⟨r, hr, hid⟩ := ho.held _ r' (hfence rfl) hr'
    exact hid.symm.trans (hx r hr)
  | forget =>
    intro r' hr'
    obtain ⟨r, hr, hid⟩ := ho.held _ r' (hfence rfl) hr'
    rw [← hid]
    exact ho.gone r (hf.bound _ _ hr) (hx r hr)
  | adopt | bringUp => exact hx
  | resuming | look | hasWakeSource | update _ | wake | track | failCreate | claim | backoff | vmForPod
    | finish | done => trivial

theorem launched_cases {failed : FleetPC} (h : x.launched f a failed = some (f', pc')) :
    (f' = f ∧ pc' = failed) ∨
    ∃ g, f.launch a.vm = some g ∧ a.vm.name = x.pod.spec.vmName ∧
      ((f' = g ∧ pc' = failed) ∨
        (f' = g.alloc a.vm ∧ pc' = .bind { a.vm with addr := g.tables.nextAddr })) := by
  unfold launched at h
  by_cases hlands : (!a.reply.lands) = true
  · rw [if_pos hlands] at h
    cases h
    exact Or.inl ⟨rfl, rfl⟩
  · rw [if_neg hlands] at h
    by_cases hname : a.vm.name = x.pod.spec.vmName
    · rw [if_neg (not_not.mpr hname)] at h
      obtain ⟨g, hg, h⟩ := Option.map_eq_some_iff.mp h
      refine Or.inr ⟨g, hg, hname, ?_⟩
      by_cases herr : a.reply.err.isSome = true
      · rw [if_pos herr] at h
        cases h
        exact Or.inl ⟨rfl, rfl⟩
      · rw [if_neg herr] at h
        cases h
        exact Or.inr ⟨rfl, rfl⟩
    · rw [if_pos hname] at h
      cases h

theorem launched_keeps (hf : f.Sound) (failed : FleetPC) (hfailed : ∀ f', Fits f' { x with pc := failed })
    (hname : x.pod.spec.vmName ≠ "") (h : x.launched f a failed = some (f', pc')) :
    f'.Sound ∧ f.Onto f' ∧ Fits f' { x with pc := pc' } := by
  rcases launched_cases h with ⟨rfl, rfl⟩ | ⟨g, hg, hvm, hend⟩
  · exact ⟨hf, .refl _, hfailed _⟩
  · have hgs : g.Sound := Fleet.launch_sound hf hg
    have hgo : f.Onto g := Fleet.launch_onto hg
    rcases hend with ⟨rfl, rfl⟩ | ⟨rfl, rfl⟩
    · exact ⟨hgs, hgo, hfailed _⟩
    · have hdel : g.tables.deleting = f.tables.deleting := by
        obtain ⟨-, rfl, -⟩ := Fleet.launch_eq hg
        rfl
      exact ⟨Fleet.alloc_sound hgs (Fleet.launch_name hg), hgo.trans (Fleet.alloc_onto hgs a.vm) hdel,
        Fleet.known_alloc g a.vm, hvm ▸ hname⟩

/- A section writes the indexes as `Moves` says. -/
theorem section_keeps {t' : Tables} (hf : f.Sound) (hm : f.Moves t') (hx : x.Fits { f with tables := t' }) :
    Fleet.Sound { f with tables := t' } ∧ f.Onto { f with tables := t' } ∧
      x.Fits { f with tables := t' } :=
  ⟨hm.sound hf, hm.onto hf, hx⟩

theorem step_keeps (hf : f.Sound) (hx : x.Fits f) (hk : x.Keeps f) (h : x.step f a = some (f', pc')) :
    f'.Sound ∧ f.Onto f' ∧ Fits f' { x with pc := pc' } := by
  obtain ⟨pod, pc⟩ := x
  have hstay : ∀ {pc' : FleetPC}, Fits f ⟨pod, pc'⟩ → f.Sound ∧ f.Onto f ∧ Fits f ⟨pod, pc'⟩ :=
    fun hx' => ⟨hf, .refl f, hx'⟩
  cases pc with
  | resuming | backoff =>
    cases h
    refine hstay ?_
    split <;> trivial
  | look =>
    cases hp : f.tables.pods.get pod.key with
    | none =>
      simp only [step, hp] at h
      cases h
      refine hstay ?_
      split <;> trivial
    | some tracked =>
      simp only [step, hp] at h
      cases h
      refine hstay ?_
      split
      · trivial
      · exact fun w hw => hf.bound _ _ hw
  | hasWakeSource =>
    cases h
    refine hstay ?_
    split
    · trivial
    · split <;> trivial
  | replace uid v =>
    cases h
    refine section_keeps hf (Fleet.moves_detachIncarnation hf hx hk.1 hk.2) ?_
    split <;> trivial
  | update v =>
    cases h
    refine section_keeps hf (f.moves_trackPodUnlessDeleting pod) ?_
    split <;> trivial
  | wake =>
    simp only [step] at h
    split at h
    next =>
      cases h
      exact hstay trivial
    next hname => exact launched_keeps hf .done (fun _ => trivial) hname h
  | track =>
    simp only [step] at h
    split at h
    next =>
      cases h
      exact hstay trivial
    next hname =>
      cases h
      refine section_keeps hf (f.moves_trackPodUnlessDeleting pod) ?_
      split
      · exact hname
      · trivial
  | adopt =>
    cases he : f.tables.vmsByName.get pod.spec.vmName with
    | none =>
      simp only [step, he] at h
      cases h
      exact hstay hx
    | some existing =>
      simp only [step, he] at h
      cases h
      obtain ⟨hknown, hown, hne⟩ := hf.named _ _ he
      refine hstay ?_
      split
      · exact hx
      · exact ⟨⟨hknown, hown ▸ hne⟩, hx⟩
  | inspect existing =>
    cases h
    refine hstay ?_
    split
    · trivial
    · split
      · exact hx.1
      next hgone => exact ⟨hx.1.1, by simpa using hgone, hx.2⟩
  | drop existing =>
    cases h
    exact section_keeps hf (Fleet.moves_dropStaleIndex hf hx.1 hx.2.1 _) hx.2.2
  | bringUp => exact launched_keeps hf .failCreate (fun _ => trivial) hx h
  | failCreate =>
    cases h
    exact section_keeps hf (f.moves_failCreate pod false) trivial
  | bind v =>
    cases h
    have hm := Fleet.moves_trackPodIncarnation hx.1 hk pod
    have htracked : Fleet.Tracked { f with tables := (f.tables.trackPodIncarnation pod v).1 } v :=
      ⟨bindable_onto (hm.onto hf) hx, fun _ =>
        ⟨v, f.tables.trackPodIncarnation_index pod v rfl hx.2, rfl⟩⟩
    refine section_keeps hf hm ?_
    split <;> exact htracked
  | stamp v =>
    cases h
    have hm := f.moves_applyVMRuntime pod v.id v.ip
    refine section_keeps hf hm ?_
    split <;> exact tracked_onto (hm.onto hf) hx
  | patch v =>
    cases h
    refine hstay ?_
    split <;> exact hx
  | detach v =>
    cases h
    have hm := Fleet.moves_detachIncarnation hf (fun w hw => Option.some.inj hw ▸ hx.1.1)
      (fun w hw => Option.some.inj hw ▸ hk.1) hk.2
    exact section_keeps hf hm (tracked_onto (hm.onto hf) hx)
  | ended v => cases h
  | claim =>
    cases h
    refine section_keeps hf (f.moves_claimDeleting pod.key pod.uid) ?_
    split <;> trivial
  | vmForPod =>
    cases hv : f.tables.vmsByPod.get pod.key with
    | none =>
      simp only [step, hv] at h
      cases h
      refine hstay fun r hr => ?_
      rw [hv] at hr
      cases hr
    | some v =>
      simp only [step, hv] at h
      cases h
      refine hstay fun r hr => ?_
      rw [hv] at hr
      rw [Option.some.inj hr]
  | save v =>
    cases h
    refine hstay ?_
    split
    · trivial
    · exact hx
  | remove v =>
    cases h
    have hkeep : Fleet.Sound { f with live := if a.reply.lands then f.live.remove v.id else f.live } ∧
        f.Onto { f with live := if a.reply.lands then f.live.remove v.id else f.live } := by
      split
      · exact ⟨Fleet.remove_sound hf v.id, f.remove_onto v.id⟩
      · exact ⟨hf, .refl f⟩
    refine ⟨hkeep.1, hkeep.2, ?_⟩
    by_cases herr : a.reply.err.isSome = true
    · rw [if_pos herr]
      trivial
    · -- an answer without an error is a removal
      have hlands : a.reply.lands = true := by
        revert herr
        cases a.reply <;> simp [Reply.err, Reply.lands]
      rw [if_neg herr, if_pos hlands]
      exact fun r hr => Fleet.remove_gone f.live v.id r.id (Or.inl (hx r hr))
  | forget =>
    cases h
    exact section_keeps hf (Fleet.moves_forgetPod hf hx) trivial
  | finish =>
    cases h
    exact section_keeps hf (.of_eq rfl rfl rfl) trivial
  | done => cases h

/-! ### The claim of a delete -/

def lock (x : FleetCall) : Option Key := if x.pc.fences then some x.pod.key else none

def Claimed (f : Fleet) (k : Key) : Prop := f.tables.deleting.has k = true

theorem launched_quiet {failed : FleetPC} (hfailed : failed.fences = false)
    (h : x.launched f a failed = some (f', pc')) :
    f'.tables.deleting = f.tables.deleting ∧ pc'.fences = false := by
  rcases launched_cases h with ⟨rfl, rfl⟩ | ⟨g, hg, -, hend⟩
  · exact ⟨rfl, hfailed⟩
  · obtain ⟨hfree, rfl, -⟩ := Fleet.launch_eq hg
    rcases hend with ⟨rfl, rfl⟩ | ⟨rfl, rfl⟩
    · exact ⟨rfl, hfailed⟩
    · exact ⟨rfl, rfl⟩

/- Only the two ends of a delete touch the claims. -/
theorem step_quiet (hclaim : x.pc ≠ .claim) (hfinish : x.pc ≠ .finish)
    (h : x.step f a = some (f', pc')) :
    f'.tables.deleting = f.tables.deleting ∧ pc'.fences = x.pc.fences := by
  have hrun : ∀ op : TableOp, op.isFence = false →
      (op.run (id : LifecycleStatus → LifecycleStatus) f.tables).deleting = f.tables.deleting :=
    fun op hop => run_deleting id f.tables op hop
  obtain ⟨pod, pc⟩ := x
  cases pc with
  | resuming | backoff | save _ | patch _ =>
    cases h
    exact ⟨rfl, by split <;> rfl⟩
  | look =>
    simp only [step] at h
    split at h <;> cases h <;> exact ⟨rfl, by split <;> rfl⟩
  | hasWakeSource =>
    cases h
    refine ⟨rfl, ?_⟩
    split
    · rfl
    · split <;> rfl
  | replace uid v =>
    cases h
    exact ⟨hrun (.detachIncarnation pod.key uid v) rfl, by split <;> rfl⟩
  | update v =>
    cases h
    exact ⟨hrun (.trackPodUnlessDeleting pod none) rfl, by split <;> rfl⟩
  | wake =>
    simp only [step] at h
    split at h
    next =>
      cases h
      exact ⟨rfl, rfl⟩
    next => exact launched_quiet rfl h
  | track =>
    simp only [step] at h
    split at h
    next =>
      cases h
      exact ⟨rfl, rfl⟩
    next =>
      cases h
      exact ⟨hrun (.trackPodUnlessDeleting pod none) rfl, by split <;> rfl⟩
  | adopt =>
    simp only [step] at h
    split at h
    next =>
      cases h
      exact ⟨rfl, rfl⟩
    next =>
      cases h
      exact ⟨rfl, by split <;> rfl⟩
  | inspect v =>
    cases h
    refine ⟨rfl, ?_⟩
    split
    · rfl
    · split <;> rfl
  | drop v =>
    cases h
    exact ⟨hrun (.dropStaleIndex pod.spec.vmName v) rfl, rfl⟩
  | bringUp => exact launched_quiet rfl h
  | failCreate =>
    cases h
    exact ⟨hrun (.failCreate pod false) rfl, rfl⟩
  | bind v =>
    cases h
    exact ⟨hrun (.trackPodIncarnation pod v) rfl, by split <;> rfl⟩
  | stamp v =>
    cases h
    exact ⟨hrun (.applyVMRuntime pod v.id v.ip) rfl, by split <;> rfl⟩
  | detach v =>
    cases h
    exact ⟨hrun (.detachIncarnation pod.key pod.uid (some v)) rfl, rfl⟩
  | vmForPod =>
    simp only [step] at h
    split at h <;> cases h <;> exact ⟨rfl, rfl⟩
  | remove v =>
    cases h
    exact ⟨rfl, by split <;> rfl⟩
  | forget =>
    cases h
    exact ⟨hrun (.forgetPod pod.key) rfl, rfl⟩
  | claim => exact absurd rfl hclaim
  | finish => exact absurd rfl hfinish
  | ended _ | done => cases h

theorem step_lock (h : x.step f a = some (f', pc')) :
    Program.LockMove (Claimed f) (Claimed f') x.lock (lock { x with pc := pc' }) := by
  by_cases hclaim : x.pc = .claim
  · obtain ⟨pod, pc⟩ := x
    cases hclaim
    cases h
    rcases claimDeleting_cases f.tables pod.key pod.uid with ⟨hc, hsame⟩ | ⟨hfree, hc⟩
    · rw [if_neg hc]
      refine .keep rfl fun k hk => ?_
      change (f.tables.claimDeleting pod.key pod.uid).1.deleting.has k = true
      rw [hsame]
      exact hk
    · rw [if_pos (by rw [hc])]
      refine .take pod.key rfl rfl ?_ fun k hk => ?_
      · rw [Claimed, Bool.not_eq_true]
        exact hfree
      · change (f.tables.claimDeleting pod.key pod.uid).1.deleting.has k = true
        rw [hc, GoMap.has_set, Bool.or_eq_true, decide_eq_true_eq]
        exact hk
  · by_cases hfinish : x.pc = .finish
    · obtain ⟨pod, pc⟩ := x
      cases hfinish
      cases h
      refine .give pod.key rfl rfl fun k hne hup => ?_
      change (f.tables.deleting.del pod.key).has k = true
      rw [GoMap.has_del, decide_eq_false hne]
      exact hup
    · obtain ⟨hdel, hfences⟩ := step_quiet hclaim hfinish h
      refine .keep ?_ fun k hk => ?_
      · simp only [lock, hfences]
      · rw [Claimed, hdel]
        exact hk

end FleetCall

/-! ### Runs -/

namespace Fleet

theorem env_keeps {f : Fleet} (hf : f.Sound) (o : FleetEnv)
    (hg : ∀ key vmID m, o = .update key vmID m → ∀ v ∈ (f.tables.updateTrackedVM key vmID m).2, f.MayIndex v) :
    (f.env o).Sound ∧ f.Onto (f.env o) := by
  cases o with
  | claim pod =>
    have hm := f.moves_trackPodUnlessDeleting pod
    exact ⟨hm.sound hf, hm.onto hf⟩
  | update key vmID m => exact updateTrackedVM_keeps hf (hg key vmID m rfl)
  | remove id => exact ⟨remove_sound hf id, f.remove_onto id⟩

theorem env_deleting (f : Fleet) (o : FleetEnv) : (f.env o).tables.deleting = f.tables.deleting := by
  cases o with
  | claim pod =>
    exact run_deleting (id : LifecycleStatus → LifecycleStatus) f.tables (.trackPodUnlessDeleting pod none) rfl
  | update key vmID m =>
    change (f.updateTrackedVM key vmID m).tables.deleting = f.tables.deleting
    rcases f.updateTrackedVM_cases key vmID m with h | ⟨v, u, -, -, -, -, -, h⟩
    · rw [h]
    · rw [h]
      rfl
  | remove id => rfl

end Fleet

/-- The tables and all calls are in order, and a key is claimed by one delete. -/
structure FleetInv (c : Config Fleet FleetCall) : Prop where
  stable : Program.Stable Fleet.Sound (fun f _ x => x.Fits f) c
  locked : Program.Locked FleetCall.lock FleetCall.Claimed c

theorem enters_idle {x : FleetCall} (h : x.enters = true) :
    x.pc = .resuming ∨ x.pc = .track ∨ x.pc = .claim := by
  unfold FleetCall.enters at h
  simp only [Bool.and_eq_true, Bool.or_eq_true, beq_iff_eq, or_assoc] at h
  exact h.2

theorem FleetInv.next {c c' : Config Fleet FleetCall} {e : FleetEvent} (hc : FleetInv c)
    (hg : KeepsVMs c e) (h : fleet.next c e = some c') : FleetInv c' := by
  have hfence : ∀ (j : ℕ) (u : FleetCall), c.threads[j]? = some u → u.pc.fences = true →
      c.shared.tables.deleting.has u.pod.key = true :=
    fun j u hu hpc => hc.locked.held j u _ hu (if_pos hpc)
  constructor
  · cases e with
    | start x =>
      obtain ⟨he, rfl⟩ := fleet.next_start h
      refine ⟨hc.stable.1, fun j u hu => ?_⟩
      rcases Program.getElem?_snoc_cases hu with hold | ⟨-, rfl⟩
      · exact hc.stable.2 j u hold
      · obtain ⟨pod, pc⟩ := u
        rcases enters_idle he with rfl | rfl | rfl <;> trivial
    | run i a =>
      obtain ⟨x, f', x', hx, hrun, rfl⟩ := Program.ofStep_run h
      obtain ⟨⟨g, pc'⟩, hstep, hr⟩ := Option.map_eq_some_iff.mp hrun
      cases hr
      obtain ⟨hsound, honto, hown⟩ := FleetCall.step_keeps hc.stable.1 (hc.stable.2 i x hx) (hg x hx) hstep
      refine ⟨hsound, fun j u hu => ?_⟩
      rcases Program.getElem?_set_cases hu with ⟨-, rfl⟩ | ⟨-, hold⟩
      · exact hown
      · exact (hc.stable.2 j u hold).onto hc.stable.1 (hfence j u hold) honto
    | env o =>
      obtain ⟨f', hs, rfl⟩ := fleet.next_env h
      cases hs
      obtain ⟨hsound, honto⟩ := Fleet.env_keeps hc.stable.1 o fun key vmID m ho => by
        subst ho
        exact hg
      exact ⟨hsound, fun j u hu => (hc.stable.2 j u hu).onto hc.stable.1 (hfence j u hu) honto⟩
  · refine fleet.next_locked (fun f x hx => ?_) (fun f i x a f' x' new hs => ?_) (fun f o f' ho k hk => ?_)
      hc.locked h
    · rcases enters_idle hx with hpc | hpc | hpc <;> simp [FleetCall.lock, FleetPC.fences, hpc]
    · obtain ⟨⟨f₁, x₁⟩, hrun, hr⟩ := Option.map_eq_some_iff.mp hs
      cases hr
      obtain ⟨⟨g, pc'⟩, hstep, hr⟩ := Option.map_eq_some_iff.mp hrun
      cases hr
      exact ⟨FleetCall.step_lock hstep, fun u hu => absurd hu List.not_mem_nil⟩
    · cases ho
      rw [FleetCall.Claimed, Fleet.env_deleting]
      exact hk

/-- In every run whose sections meet the two conditions, a VM that `bindRuntime` was given and that is
still in the runtime can be reached once that call has ended. -/
theorem given_vm_reachable (f : Fleet) (hf : f.Sound) (es : List FleetEvent)
    (hg : fleet.machine.Guarded KeepsVMs ⟨f, []⟩ es) (c : Config Fleet FleetCall)
    (hexec : fleet.machine.exec ⟨f, []⟩ es = some c) (x : FleetCall) (hx : x ∈ c.threads) (v : VM)
    (hv : x.pc = .ended v) (hlive : c.shared.live.has v.id = true) : c.shared.Reaches v := by
  have hstart : FleetInv ⟨f, []⟩ := ⟨⟨hf, by simp⟩, by simp, by simp [Program.Apart]⟩
  have hinv : FleetInv c :=
    fleet.machine.exec_invariant (fun c e c' hc he h => hc.next he h) hstart hg hexec
  obtain ⟨i, hi⟩ := List.getElem?_of_mem hx
  obtain ⟨pod, pc⟩ := x
  cases hv
  have htracked : c.shared.Tracked v := hinv.stable.2 i _ hi
  exact Or.inr (htracked.2 hlive)

instance (f : Fleet) (v : VM) : Decidable (f.MayIndex v) :=
  inferInstanceAs (Decidable
    (∀ r ∈ f.tables.vmsByName.get v.name, f.live.has r.id = true → f.live.has v.id = true))

instance (f : Fleet) (key : Key) (uid : UID) (v : Option VM) : Decidable (f.MayDetach key uid v) :=
  inferInstanceAs (Decidable (f.tables.trackedPodMatches key uid = true →
    ∀ r ∈ f.tables.vmsByPod.get key, f.live.has r.id = true → v.map (·.id) = some r.id))

instance (f : Fleet) (x : FleetCall) : Decidable (x.Keeps f) := by
  unfold FleetCall.Keeps
  split <;> infer_instance

instance (c : Config Fleet FleetCall) : (e : FleetEvent) → Decidable (KeepsVMs c e)
  | .run i _ => inferInstanceAs (Decidable (∀ x ∈ c.threads[i]?, x.Keeps c.shared))
  | .env (.update key vmID m) => inferInstanceAs (Decidable
      (∀ v ∈ (c.shared.tables.updateTrackedVM key vmID m).2, c.shared.MayIndex v))
  | .start _ | .env (.claim _) | .env (.remove _) => .isTrue trivial

def emptyFleet : Fleet := ⟨Tables.new, ⟨.empty, fun _ _ _ h => by cases h⟩, .empty⟩

theorem emptyFleet_sound : emptyFleet.Sound := by
  constructor <;> intros <;> contradiction

/-- The next step of thread `i` when every call succeeds. -/
def goes (i : ℕ) : FleetEvent := .run i ⟨.ok, sampleVM, false⟩

/- `CreatePod` of the pod up to the bind of `vm1`, as thread 0. -/
def launchedVM : List FleetEvent := .start ⟨samplePod, .track⟩ :: List.replicate 3 (goes 0)

/-- The next incarnation of the pod. -/
def nextPod : Pod := { samplePod with uid := "u2" }

/- The incarnation is replaced after the bind, and its patch is rejected. -/
theorem given_vm_reachable_rejected : ∃ c,
    fleet.machine.exec ⟨emptyFleet, []⟩ (launchedVM ++ [goes 0, goes 0,
      .start ⟨nextPod, .resuming⟩, goes 1, goes 1, goes 1, .run 0 ⟨.nameTaken, sampleVM, false⟩, goes 0]) =
        some c ∧ c.shared.Reaches sampleVM := by
  have hmap : (fleet.machine.exec ⟨emptyFleet, []⟩ (launchedVM ++ [goes 0, goes 0,
      .start ⟨nextPod, .resuming⟩, goes 1, goes 1, goes 1, .run 0 ⟨.nameTaken, sampleVM, false⟩,
      goes 0])).map (fun c => (c.threads[0]?, c.shared.live.has "vm1")) =
        some (some ⟨samplePod, .ended sampleVM⟩, true) := by decide +kernel
  obtain ⟨c, hexec, heq⟩ := Option.map_eq_some_iff.mp hmap
  obtain ⟨hx, hlive⟩ := Prod.mk.inj heq
  exact ⟨c, hexec, given_vm_reachable emptyFleet emptyFleet_sound _ (by decide +kernel) c hexec _
    (List.mem_of_getElem? hx) sampleVM rfl hlive⟩

/- The next incarnation arrives while `vm1` is launched and reads that nothing is bound; the patch of the
bind then fails for another reason, and the bind stands. -/
theorem given_vm_lost :
    ¬ ∀ (f : Fleet) (es : List FleetEvent) (c : Config Fleet FleetCall), f.Sound →
      fleet.machine.exec ⟨f, []⟩ es = some c → ∀ x ∈ c.threads, ∀ v, x.pc = .ended v →
        c.shared.live.has v.id = true → c.shared.Reaches v := by
  intro h
  have hmap : (fleet.machine.exec ⟨emptyFleet, []⟩ (launchedVM ++ [.start ⟨nextPod, .resuming⟩, goes 1,
      goes 1, goes 0, goes 0, .run 0 ⟨.failed "timeout", sampleVM, false⟩, goes 1])).map
        (fun c => (c.threads[0]?, c.shared.live.has "vm1", c.shared.tables.vmsByPod.toList,
          c.shared.tables.vmsByName.get "vk-a")) =
        some (some ⟨samplePod, .ended sampleVM⟩, true, [], none) := by decide +kernel
  obtain ⟨c, hexec, heq⟩ := Option.map_eq_some_iff.mp hmap
  obtain ⟨hx, heq⟩ := Prod.mk.inj heq
  obtain ⟨hlive, heq⟩ := Prod.mk.inj heq
  obtain ⟨hbound, hnamed⟩ := Prod.mk.inj heq
  rcases h emptyFleet _ c emptyFleet_sound hexec _ (List.mem_of_getElem? hx) sampleVM rfl hlive with
    ⟨k, r, hr, -⟩ | ⟨r, hr, -⟩
  · have hmem := (GoMap.mem_toList _ k r).mpr hr
    rw [hbound] at hmem
    cases hmem
  · rw [show sampleVM.name = "vk-a" from rfl, hnamed] at hr
    cases hr

/- The other condition is needed as well. `vm1` is deleted while its patch is under way, `vm2` is launched
under its name for the next incarnation and left in the index for the third; the rejected patch of the
first then puts the record of `vm1` over the entry of `vm2`. -/
example : (fleet.machine.exec ⟨emptyFleet, []⟩ (launchedVM ++
    [goes 0, goes 0, .start ⟨samplePod, .claim⟩] ++ List.replicate 7 (goes 1) ++
    [.start ⟨nextPod, .track⟩, goes 2, goes 2, .run 2 ⟨.ok, { sampleVM with id := "vm2" }, false⟩,
      .env (.claim { samplePod with uid := "u3" }), goes 2, .run 0 ⟨.nameTaken, sampleVM, false⟩,
      goes 0])).map (fun c => (c.shared.live.names.toList, c.shared.tables.vmsByPod.toList,
        (c.shared.tables.vmsByName.get "vk-a").map (·.id))) =
    some ([("vm2", "vk-a")], [], some "vm1") := by
  decide +kernel

end VkCocoon
