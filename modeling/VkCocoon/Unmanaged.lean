import VkCocoon.Unmanaged.Filed

/-!
# Unmanaged VMs

A pod with `Managed=false` names a VM that somebody else runs. Nothing may start, stop, save or
remove that VM, change its NICs or run anything in its guest. `Managed` is tested in every
callback on its own; `CreatePod` tests it before it reads the evidence of a hibernate, but not
before it dispatches the restore that the marker asks for.
-/

namespace VkCocoon
open Lib Tables

section Steps
variable {u : Pod} {w w' : World} {a : Answer}

/-! ### The threads of the node -/

/- What a step needs and keeps. -/
structure Spared (u : Pod) (w : World) : Prop where
  kept : Kept u w.tables
  filed : w.Filed u

theorem NodeThread.op_harmless {t : NodeThread} (h : t.Clean u) {op : TableOp}
    (hop : t.op w a = some op) : op.Harmless u := by
  cases t with
  | pod t =>
    cases t with
    | gone t =>
      cases t with
      | hibernate hib =>
        simp only [NodeThread.op, PodThread.op, WatchThread.op] at hop
        split at hop
        · split at hop <;> cases hop
          trivial
        · exact Hib.op_harmless h hop
      | watch g => exact Watch.op_harmless h hop
    | bring b =>
      simp only [NodeThread.op] at hop
      split at hop
      · cases hop
      · rcases h with h | h
        · exact h.op_harmless hop
        · exact h.op_harmless hop
    | tail t => exact Tail.op_harmless h hop
    | probe key pc => exact ProbePC.op_harmless h hop
  | snapshot s => cases hop
  | fork f => cases hop
  | delete d => exact Delete.op_harmless hop

theorem Bring.requests_clean {b : Bring} (h : b.Away u ∨ b.Home u) {s : SnapshotCall}
    (hs : b.requests w = some s) : (NodeThread.snapshot s).Clean u := by
  unfold Bring.requests at hs
  split at hs
  next v prev hpc =>
    split at hs
    next hc =>
      cases hs
      rcases h with h | h
      · exact ⟨h, h.vms v (by rw [hpc]; exact List.mem_cons_self)⟩
      · simp [h.pod.2.1] at hc
    next => cases hs
  next => cases hs

theorem WatchThread.step_clean (hw : Spared u w) {t t' : WatchThread} {new : List WatchThread}
    (h : (NodeThread.pod (.gone t)).Clean u) (hs : t.step w a = some (w', t', new)) :
    w'.Filed u ∧ (NodeThread.pod (.gone t')).Clean u ∧
      ∀ n ∈ new, (NodeThread.pod (.gone n)).Clean u := by
  cases t with
  | hibernate hib =>
    simp only [WatchThread.step] at hs
    split at hs
    · cases hs
      refine ⟨hw.filed.recheck _, ⟨h.key, h.vm, fun x hx => by cases hx⟩, fun n hn => ?_⟩
      obtain ⟨g, hg, rfl⟩ := List.mem_map.mp hn
      simp only [World.scheduleDeferredRecheck] at hg
      split at hg
      · cases hg
      · rw [List.mem_singleton.mp hg]
        exact ⟨fun hr => h.vm (Role.recheck.inj hr), fun x hx => by cases hx⟩
    · obtain ⟨s, hstep, heq⟩ := Option.map_eq_some_iff.mp hs
      cases heq
      exact ⟨Hib.step_filed hw.filed hstep, Hib.step_clean h hstep, fun n hn => by cases hn⟩
  | watch g =>
    obtain ⟨s, hstep, heq⟩ := Option.map_eq_some_iff.mp hs
    cases heq
    obtain ⟨hg, hnew⟩ := Watch.step_clean hw.kept hw.filed h hstep
    refine ⟨Watch.step_filed hw.filed hstep, hg, fun n hn => ?_⟩
    obtain ⟨g', hg', rfl⟩ := List.mem_map.mp hn
    exact hnew g' hg'

theorem NodeThread.step_clean (hw : Spared u w) {t t' : NodeThread} {new : List NodeThread}
    (h : t.Clean u) (hs : t.step w a = some (w', t', new)) :
    Spared u w' ∧ t'.Clean u ∧ ∀ n ∈ new, n.Clean u := by
  have hkept : Kept u w'.tables := by
    rw [NodeThread.step_tables id hs]
    exact runOption_kept id hw.kept fun op hop => NodeThread.op_harmless h hop
  suffices hrest : w'.Filed u ∧ t'.Clean u ∧ ∀ n ∈ new, n.Clean u from ⟨⟨hkept, hrest.1⟩, hrest.2⟩
  cases t with
  | pod t =>
    cases t with
    | gone t =>
      obtain ⟨r, hr, heq⟩ := Option.map_eq_some_iff.mp hs
      cases heq
      obtain ⟨q, hq, heq⟩ := Option.map_eq_some_iff.mp hr
      cases heq
      obtain ⟨hf, ht, hnew⟩ := WatchThread.step_clean hw h hq
      refine ⟨hf, ht, fun n hn => ?_⟩
      obtain ⟨x, hx, rfl⟩ := List.mem_map.mp hn
      obtain ⟨y, hy, rfl⟩ := List.mem_map.mp hx
      exact hnew y hy
    | bring b =>
      simp only [NodeThread.step] at hs
      split at hs
      next s hreq =>
        cases hs
        exact ⟨hw.filed, Bring.requests_clean h hreq, fun n hn => by cases hn⟩
      next =>
        obtain ⟨r, hr, heq⟩ := Option.map_eq_some_iff.mp hs
        cases heq
        refine ⟨Bring.step_filed h hw.filed hr, ?_, fun n hn => ?_⟩
        · rcases h with h | h
          · exact Or.inl (h.step_vms hw.kept hr)
          · exact Or.inr (h.step_vms hw.kept hr)
        · obtain ⟨x, hx, rfl⟩ := List.mem_map.mp hn
          rcases h with h | h
          · exact h.fork (Bring.step_fork hr hx).1
          · exact h.fork (Bring.step_fork hr hx).1
    | tail t =>
      obtain ⟨r, hr, heq⟩ := Option.map_eq_some_iff.mp hs
      cases heq
      obtain ⟨q, hq, heq⟩ := Option.map_eq_some_iff.mp hr
      cases heq
      exact ⟨Job.step_filed hw.filed hq, Tail.step_clean hw.kept h hq, fun n hn => by cases hn⟩
    | probe key pc =>
      obtain ⟨r, hr, heq⟩ := Option.map_eq_some_iff.mp hs
      cases heq
      obtain ⟨q, hq, heq⟩ := Option.map_eq_some_iff.mp hr
      cases heq
      exact ⟨ProbePC.step_filed hw.filed hq, ProbePC.step_clean hw.kept h hq,
        fun n hn => by cases hn⟩
  | snapshot s =>
    cases hs
    exact ⟨SnapshotCall.step_filed hw.filed, SnapshotCall.step_clean h, fun n hn => by cases hn⟩
  | fork f =>
    obtain ⟨r, hr, heq⟩ := Option.map_eq_some_iff.mp hs
    cases heq
    obtain ⟨hf, hclean⟩ := ForkFlight.step_clean hw.kept hw.filed h hr
    exact ⟨hf, hclean, fun n hn => by cases hn⟩
  | delete d =>
    obtain ⟨r, hr, heq⟩ := Option.map_eq_some_iff.mp hs
    cases heq
    exact ⟨Delete.step_filed hw.filed hr, Delete.step_clean hw.kept h hr, fun n hn => by cases hn⟩

theorem NodeThread.operates_clean {t : NodeThread} (h : t.Clean u) :
    t.operates w a ≠ some u.vmid := by
  intro ho
  cases t with
  | pod t =>
    cases t with
    | gone t =>
      cases t with
      | hibernate hib =>
        refine h.vm (Option.some.inj (Eq.trans ?_ ho))
        simp only [NodeThread.operates, Hib.operates] at ho ⊢
        split at ho <;> first | rfl | cases ho
      | watch g =>
        obtain ⟨role, pc⟩ := g
        cases pc with
        | start m v => exact h.vms m.v List.mem_cons_self (Option.some.inj ho)
        | remove m v => exact h.vms v List.mem_cons_self (Option.some.inj ho)
        | _ => cases ho
    | bring b =>
      simp only [NodeThread.operates] at ho
      split at ho
      next v hpc =>
        rcases h with h | h
        · exact h.vms v (by rw [hpc]; exact List.mem_cons_self) (Option.some.inj ho)
        · have hmild := h.mild
          rw [hpc] at hmild
          cases hmild
      next => cases ho
    | tail t => exact Tail.operates_clean h ho
    | probe key pc => cases ho
  | snapshot s =>
    simp only [NodeThread.operates] at ho
    split at ho
    · exact h.2 (Option.some.inj ho)
    · cases ho
  | fork f =>
    simp only [NodeThread.operates] at ho
    split at ho
    next id hpc => exact h.2 (hpc.trans (congrArg _ (Option.some.inj ho)))
    next => cases ho
  | delete d =>
    simp only [NodeThread.operates] at ho
    split at ho
    next v hpc => exact h.vms v (by rw [hpc]; exact List.mem_cons_self) (Option.some.inj ho)
    next v hpc => exact h.vms v (by rw [hpc]; exact List.mem_cons_self) (Option.some.inj ho)
    next => cases ho

end Steps

/-! ### Runs -/

/-- What enters a node whose other pods are not given the VM of `u`. -/
def Scoped (u : Pod) : NodeEvent → Prop
  | .start (.pod (.bring b)) => u.Copy b.pod ∨ (u.Foreign b.pod ∧ b.launched.id ≠ u.vmid)
  | .start (.delete d) => d.pod.key = u.key → d.pod.spec.managed = false
  | .start (.fork f) => f.source ≠ u.spec.vmName
  | .env (.around (.table op)) => op.Harmless u
  | .env (.around (.runtime id (some v))) => v.id = id ∧ (id = u.vmid → v.name = u.spec.vmName)
  | _ => True

/-- A call for `u` asks for no restore that needs a fixup in the guest. -/
def PlainCall (u : Pod) : NodeEvent → Prop
  | .start (.pod (.bring b)) => u.Copy b.pod → b.pod.Plain
  | _ => True

instance (u : Pod) : (e : NodeEvent) → Decidable (Scoped u e)
  | .start (.pod (.bring b)) =>
    inferInstanceAs (Decidable (u.Copy b.pod ∨ (u.Foreign b.pod ∧ b.launched.id ≠ u.vmid)))
  | .start (.delete d) => inferInstanceAs (Decidable (d.pod.key = u.key → d.pod.spec.managed = false))
  | .env (.around (.table op)) => inferInstanceAs (Decidable (op.Harmless u))
  | .start (.fork f) => inferInstanceAs (Decidable (f.source ≠ u.spec.vmName))
  | .env (.around (.runtime id (some v))) =>
    inferInstanceAs (Decidable (v.id = id ∧ (id = u.vmid → v.name = u.spec.vmName)))
  | .start (.pod (.gone _)) | .start (.pod (.tail _)) | .start (.pod (.probe _ _)) | .start (.snapshot _)
  | .run _ _ | .env (.lease _ _) | .env (.around (.runtime _ none)) | .env (.around (.apiPod _ _))
  | .env (.around .close) => .isTrue trivial

instance (u : Pod) : (e : NodeEvent) → Decidable (PlainCall u e)
  | .start (.pod (.bring b)) => inferInstanceAs (Decidable (u.Copy b.pod → b.pod.Plain))
  | .start (.pod (.gone _)) | .start (.pod (.tail _)) | .start (.pod (.probe _ _)) | .start (.snapshot _)
  | .start (.fork _) | .start (.delete _) | .run _ _ | .env _ => .isTrue trivial

section Runs
variable {S : Type} [DecidableEq S] (snapshot : LifecycleStatus → S) {u : Pod}

theorem NodeThread.entry_clean {t : NodeThread} (he : t.entry = true) (hs : Scoped u (.start t))
    (hp : PlainCall u (.start t)) : t.Clean u := by
  cases t with
  | pod t =>
    cases t with
    | gone t =>
      cases t with
      | hibernate hib => cases he
      | watch g =>
        obtain ⟨role, pc⟩ := g
        cases role <;> cases pc <;> cases he
        exact ⟨(by rintro ⟨⟩), fun v hv => by cases hv⟩
    | bring b =>
      have hpc : b.pc = .backoff ∨ b.pc = .track ∨ b.pc = .liftRead .cleared ∨ b.pc = .resume := by
        simp only [NodeThread.entry, PodThread.entry, Bool.and_eq_true, Bool.or_eq_true,
          beq_iff_eq, or_assoc] at he
        exact he.2
      have hvms : b.pc.vms = [] := by
        rcases hpc with h | h | h | h <;> rw [h] <;> rfl
      have hmild : b.pc.mild b.pod.restoreFromHibernate = true := by
        rcases hpc with h | h | h | h <;> rw [h] <;> rfl
      rcases hs with hcopy | ⟨hforeign, hlaunched⟩
      · refine Or.inr ⟨hcopy, hp hcopy, hmild, fun v hv => ?_⟩
        rw [hvms] at hv
        cases hv
      · refine Or.inl ⟨hforeign, hlaunched, fun v hv => ?_⟩
        rw [hvms] at hv
        cases hv
    | tail t => cases he
    | probe key pc =>
      have hpc : pc = .lookup := by simpa [NodeThread.entry, PodThread.entry] using he
      rw [hpc]
      trivial
  | snapshot s => cases he
  | fork f =>
    have hpc : f.pc = .check := by simpa [NodeThread.entry] using he
    refine ⟨hs, ?_⟩
    rw [hpc]
    exact ForkPC.noConfusion
  | delete d =>
    have hpc : d.pc = .claim := by
      simp only [NodeThread.entry, Bool.and_eq_true, beq_iff_eq] at he
      exact he.2
    refine ⟨hs, fun v hv => ?_⟩
    rw [hpc] at hv
    cases hv

theorem Spared.env {w w' : World} {o : PodAround} (hw : Spared u w) (hs : Scoped u (.env o))
    (h : (nodeThreads snapshot).env w o = some w') : Spared u w' := by
  obtain ⟨-, rfl⟩ := nodeThreads_env snapshot h
  constructor
  · rw [World.podAround_tables]
    refine runOption_kept snapshot hw.kept fun op hop => ?_
    cases o with
    | around o =>
      cases o with
      | table op =>
        cases hop
        exact hs
      | _ => cases hop
    | lease mac ip => cases hop
  · cases o with
    | around o =>
      cases o with
      | runtime id v =>
        cases v with
        | none => exact hw.filed.del rfl
        | some v => exact hw.filed.set hs rfl
      | apiPod key uid => cases uid <;> exact hw.filed
      | table | close => exact hw.filed
    | lease mac ip => cases ip <;> exact hw.filed

theorem next_clean {c c' : NodeConfig} {e : NodeEvent} (hg : Scoped u e ∧ PlainCall u e)
    (hc : Program.Stable (Spared u) (fun _ _ t => t.Clean u) c)
    (h : (nodeThreads snapshot).next c e = some c') :
    Program.Stable (Spared u) (fun _ _ t => t.Clean u) c' := by
  refine (nodeThreads snapshot).next_stable (G := fun _ e => Scoped u e ∧ PlainCall u e) ?_ ?_ ?_
    c e c' hc hg h
  · intro c t hc hg he
    exact NodeThread.entry_clean he hg.1 hg.2
  · intro c i t a s' t' new hc _ ht hs
    obtain ⟨hw, hclean, hnew⟩ := NodeThread.step_clean hc.1 (hc.2 i t ht) hs
    exact ⟨hw, hclean, fun j v _ hv => hc.2 j v hv, fun j v _ hv => hnew v hv⟩
  · intro c o s' hc hg hs
    exact ⟨hc.1.env snapshot hg.1 hs, fun j v hv => hc.2 j v hv⟩

/-- After any restart, and in every run in which the calls for the pod are plain, nothing is called
for the VM of an unmanaged pod that has its pre-assigned VMID and IP. -/
theorem unmanaged_vm_untouched (u : Pod) (hu : u.Assigned) (r : Relist) (hr : r.Spares u)
    (policy : OrphanPolicy) (w : World) (hw : w.tables = (r.sweep snapshot policy).1) (hf : w.Filed u)
    (es : List NodeEvent)
    (hg : (nodeThreads snapshot).machine.Guarded (fun _ e => Scoped u e ∧ PlainCall u e) ⟨w, []⟩ es) :
    (∀ v ∈ (r.watch policy (r.reconcile snapshot policy)).2, v.id ≠ u.vmid) ∧
      (nodeThreads snapshot).machine.Guarded (Untouched u.vmid) ⟨w, []⟩ es := by
  obtain ⟨hkept, hremoved⟩ := r.sweep_kept snapshot hu hr policy
  refine ⟨r.watch_spares hr policy hremoved, ?_⟩
  have hinit : Program.Stable (Spared u) (fun _ _ t => NodeThread.Clean u t) (⟨w, []⟩ : NodeConfig) :=
    ⟨⟨hw ▸ hkept, hf⟩, fun i t ht => by cases ht⟩
  refine (nodeThreads snapshot).machine.guarded_of_invariant ?_ ?_ hinit hg
  · intro c e c' hc hg h
    exact next_clean snapshot hg hc h
  · intro c e hc _
    cases e with
    | run i a =>
      intro t ht
      exact NodeThread.operates_clean (hc.2 i t ht)
    | _ => trivial

/- An unmanaged pod whose annotations ask for a restore. -/
def toolbox (backend : Backend) : Pod :=
  { samplePod with
    spec := ⟨"toolbox", false, .other "linux", backend⟩
    vmid := "vm9"
    ip := "10.0.0.9"
    restoreFromHibernate := true }

def toolboxVM : VM := { sampleVM with id := "vm9", name := "toolbox" }

/- A restart that finds the pod and its VM. -/
def toolboxRelist (backend : Backend) : Relist where
  pods := [toolbox backend]
  keys_nodup := List.nodup_singleton _
  vms := [toolboxVM]
  ids_nodup := List.nodup_singleton _
  verb := fun _ => none
  inspect := fun _ => .failed
  ticks := fun _ => []
  inspect_same := fun _ _ _ h => by cases h
  ticks_same := fun _ _ _ h => by cases h
  answers := fun _ => noFindings

theorem toolbox_assigned (backend : Backend) : (toolbox backend).Assigned :=
  ⟨rfl, by simp [toolbox], by simp [toolbox]⟩

theorem toolboxRelist_spares (backend : Backend) : (toolboxRelist backend).Spares (toolbox backend) := by
  have hcopy : (toolbox backend).Copy (toolbox backend) :=
    ⟨rfl, rfl, rfl, rfl, (toolbox_assigned backend).2.2⟩
  refine ⟨fun p hp => ?_, fun p hp v hv => (by cases hv), fun v hv hid => ?_⟩
  · rw [List.mem_singleton.mp hp]
    exact Or.inl hcopy
  · rw [List.mem_singleton.mp hv]
    refine ⟨by decide, ⟨toolbox backend, List.mem_singleton_self _, hcopy⟩, fun p hp hforeign => ?_⟩
    rw [List.mem_singleton.mp hp] at hforeign
    exact absurd rfl hforeign.1

def toolboxWorld (backend : Backend) : World :=
  { sampleWorld with
    tables := ((toolboxRelist backend).sweep (id : LifecycleStatus → LifecycleStatus) .destroy).1
    runtime := GoMap.empty.set "vm9" toolboxVM }

theorem toolboxWorld_filed (backend : Backend) :
    (toolboxWorld backend).Filed (toolbox backend) := by
  intro x v hv
  change (GoMap.empty.set "vm9" toolboxVM).get x = some v at hv
  rw [GoMap.get_set] at hv
  split at hv
  next hx =>
    cases hv
    exact ⟨hx.symm, fun _ => rfl⟩
  next => cases hv

/- An event for the VM; the pod is deleted and created again, and the restore it asks for runs. -/
def toolboxTrace (backend : Backend) : List NodeEvent :=
  .start (.pod (.gone (.watch ⟨.event, .lookup "vm9" "toolbox"⟩))) :: .run 0 sure ::
  .start (.delete ⟨toolbox backend, false, true, .claim⟩) :: List.replicate 5 (.run 1 sure) ++
  .start (.pod (.bring ⟨toolbox backend, sampleVM, ⟨"", none⟩, .track⟩)) ::
    List.replicate 9 (.run 2 sure) ++ [.run 3 sure, .run 3 sure]

theorem unmanaged_vm_untouched_toolbox :
    ((nodeThreads (id : LifecycleStatus → LifecycleStatus)).machine.exec
      ⟨toolboxWorld .cloudHypervisor, []⟩ (toolboxTrace .cloudHypervisor)).isSome = true ∧
    (∀ v ∈ ((toolboxRelist .cloudHypervisor).watch .destroy ((toolboxRelist .cloudHypervisor).reconcile
      (id : LifecycleStatus → LifecycleStatus) .destroy)).2, v.id ≠ "vm9") ∧
    (nodeThreads (id : LifecycleStatus → LifecycleStatus)).machine.Guarded (Untouched "vm9")
      ⟨toolboxWorld .cloudHypervisor, []⟩ (toolboxTrace .cloudHypervisor) :=
  ⟨by decide +kernel,
    unmanaged_vm_untouched id (toolbox .cloudHypervisor) (toolbox_assigned _)
      (toolboxRelist .cloudHypervisor) (toolboxRelist_spares _) .destroy
      (toolboxWorld .cloudHypervisor) rfl (toolboxWorld_filed _) (toolboxTrace .cloudHypervisor)
      (by decide +kernel)⟩

/- A Firecracker clone needs its fixup, so the restore runs commands in the guest. -/
theorem unmanaged_vm_execed :
    ¬∀ (u : Pod), u.Assigned → ∀ (r : Relist), r.Spares u → ∀ (policy : OrphanPolicy) (w : World),
      w.tables = (r.sweep (id : LifecycleStatus → LifecycleStatus) policy).1 → w.Filed u →
      ∀ es : List NodeEvent,
      (nodeThreads (id : LifecycleStatus → LifecycleStatus)).machine.Guarded
        (fun _ e => Scoped u e) ⟨w, []⟩ es →
      (nodeThreads (id : LifecycleStatus → LifecycleStatus)).machine.Guarded
        (Untouched u.vmid) ⟨w, []⟩ es := by
  intro h
  have hclaim := h (toolbox .firecracker) (toolbox_assigned _) (toolboxRelist .firecracker)
    (toolboxRelist_spares _) .destroy (toolboxWorld .firecracker) rfl (toolboxWorld_filed _)
    (toolboxTrace .firecracker) (by decide +kernel)
  revert hclaim
  decide +kernel

end Runs

end VkCocoon
