import VkCocoon.Unmanaged.Kept

/-!
# The threads of a node and an unmanaged VM

No thread comes to hold the VM in a place from which it would operate on it: the watcher, the
hibernates, the calls, the tails, the probes, the snapshots and the deletes.
-/

namespace VkCocoon
open Lib Tables

/-! ### What the threads hold -/

/-- The records a handler or a recheck acts on. -/
def GonePC.vms : GonePC → List VM
  | .flags m | .inspect m _ | .reinspect m | .refresh m _ | .recheckInspect m => [m.v]
  | .cooldown m v | .start m v => [m.v, v]
  | .claim _ v _ | .remove _ v | .releaseLeases _ v _ | .deletePod _ v _ _ | .untrack _ v _
  | .finish _ v _ _ | .check _ v _ | .schedule _ v _ => [v]
  | _ => []

def BringPC.vms : BringPC → List VM
  | .detachOld _ v | .trackUpdate v | .takeRetry v | .apply v _ => v.toList
  | .adoptInspect v _ | .dropIndex v | .seed v _ | .dispatch v _ | .markBootDone v | .bootWait v
  | .bind v _ | .stamp v _ | .patch v _ | .detach v | .owed v | .claim v _ | .resumeStart v
  | .classify v | .restore v => [v]
  | _ => []

def DeletePC.vms : DeletePC → List VM
  | .inspect v | .save v | .push v | .remove v | .releaseLeases v => [v]
  | _ => []

/-- The record whose address a tail resolves. -/
def TailPC.sees : TailPC → List VM
  | .lease seen | .store seen _ => [seen]
  | _ => []

/-- A bind for an unmanaged pod. -/
def BindSite.mild (marker : Bool) : BindSite → Bool
  | .adopt => true
  | .launch restoring => !restoring || marker
  | .wake => false

/-- The points a call for an unmanaged pod gets to; it restores only on the marker. -/
def BringPC.mild (marker : Bool) : BringPC → Bool
  | .claim _ op => op == .readyWait
  | .bind _ site | .stamp _ site | .patch _ site => site.mild marker
  | .bringUp restoring | .dispatch _ restoring => !restoring || marker
  | .resumeStart _ | .resumeFail _ | .classify _ | .classifyFail _ | .restore _ | .seed _ _ | .bootWait _
  | .markBootDone _ | .wakeCreating _ | .wakeClear _ | .wakeSource _ | .wakeClone _ | .wakeFail _ _ =>
    false
  | _ => true

/-- The points of a lease wait that finds the address of the annotations. -/
def TailPC.Waits (u : Pod) : TailPC → Prop
  | .lookup | .check | .ready | .timeout | .leave | .done => True
  | .lease seen => seen.Static u
  | _ => False

section Clean
variable (u : Pod)

structure Watch.Clean (g : Watch) : Prop where
  role : g.role ≠ .recheck u.vmid
  vms : ∀ v ∈ g.pc.vms, v.id ≠ u.vmid

structure Hib.Clean (h : Hib) : Prop where
  key : h.pod.key ≠ u.key
  vm : h.v.id ≠ u.vmid
  bound : ∀ v, h.pc.vm = some v → v.id ≠ u.vmid

/-- A call for another pod. -/
structure Bring.Away (b : Bring) : Prop where
  pod : u.Foreign b.pod
  launched : b.launched.id ≠ u.vmid
  vms : ∀ v ∈ b.pc.vms, v.id ≠ u.vmid

/-- A call for the pod itself. -/
structure Bring.Home (b : Bring) : Prop where
  pod : u.Copy b.pod
  plain : b.pod.Plain
  mild : b.pc.mild b.pod.restoreFromHibernate = true
  vms : ∀ v ∈ b.pc.vms, v.id = u.vmid → v.Static u

def Tail.Clean (t : Tail) : Prop :=
  (t.job.v.id ≠ u.vmid ∧ ∀ v ∈ t.pc.sees, v.id ≠ u.vmid) ∨ (t.job.v.id = u.vmid ∧ t.pc.Waits u)

def ProbePC.Clean : ProbePC → Prop
  | .lease seen => seen.id = u.vmid → seen.Static u
  | .store seen _ => seen.id ≠ u.vmid
  | _ => True

structure Delete.Clean (d : Delete) : Prop where
  pod : d.pod.key = u.key → d.pod.spec.managed = false
  vms : ∀ v ∈ d.pc.vms, v.id ≠ u.vmid

/-- A thread that does not operate on the VM of `u` and will not. -/
def NodeThread.Clean : NodeThread → Prop
  | .pod (.gone (.hibernate h)) => h.Clean u
  | .pod (.gone (.watch g)) => g.Clean u
  | .pod (.bring b) => b.Away u ∨ b.Home u
  | .pod (.tail t) => t.Clean u
  | .pod (.probe _ pc) => pc.Clean u
  | .snapshot s => s.caller.Away u ∧ s.v.id ≠ u.vmid
  | .fork f => f.source ≠ u.spec.vmName ∧ f.pc ≠ .save u.vmid
  | .delete d => d.Clean u

end Clean

/-- The runtime has its records under their IDs, and the VM of `u`, if at all, under the name that
`u` has for it. -/
def World.Filed (u : Pod) (w : World) : Prop :=
  ∀ id v, w.runtime.get id = some v → v.id = id ∧ (id = u.vmid → v.name = u.spec.vmName)

section Steps
variable {u : Pod} {w w' : World} {a : Answer}

/-! ### The watcher -/

/- A record a handler comes to act on is one it had, what the runtime has under that ID, or the
tracked record of a pod; that pod is managed, unless the recheck looks it up by ID. -/
theorem Watch.step_vms {role : Role} {pc pc' : GonePC} {new : List Watch} {v : VM}
    (h : Watch.step w role a pc = some (w', pc', new)) (hv : v ∈ pc'.vms) :
    v ∈ pc.vms ∨ (∃ x ∈ pc.vms, w.runtime.get x.id = some v) ∨
    ∃ m : Match, v = m.v ∧ w.tables.pods.get m.key = some m.pod ∧
      w.tables.vmsByPod.get m.key = some m.v ∧
      (m.pod.spec.managed = true ∨ role = .recheck m.v.id) := by
  have hret : ∀ b, (role.ret b).vms = [] := by
    intro b
    cases role <;> cases b <;> rfl
  have hnil : ∀ {l : List VM}, v ∈ l → l = [] → v ∈ pc.vms := by
    intro l hl he
    rw [he] at hl
    cases hl
  cases pc with
  | lookup id name =>
    obtain ⟨m, hm, h⟩ := Option.map_eq_some_iff.mp h
    cases m with
    | none =>
      cases h
      exact Or.inl (hnil hv (hret false))
    | some m =>
      cases h
      split at hv
      next hman =>
        obtain ⟨hp, hb, -⟩ := World.podForVMMatch_some hm
        exact Or.inr (Or.inr ⟨m, List.mem_singleton.mp hv, hp, hb, Or.inl hman⟩)
      next => exact Or.inl (hnil hv (hret false))
  | flags m =>
    cases h
    split at hv
    · exact Or.inl (hnil hv (hret false))
    · exact Or.inl hv
  | inspect m attempt =>
    simp only [Watch.step] at h
    split at h
    · cases h
      exact Or.inl hv
    · cases h
      split at hv <;> exact Or.inl hv
    next x hi =>
      cases h
      split at hv
      · exact Or.inl (hnil hv (hret false))
      · rcases List.mem_cons.mp hv with rfl | hv
        · exact Or.inl List.mem_cons_self
        · rw [List.mem_singleton.mp hv]
          exact Or.inr (Or.inl ⟨m.v, List.mem_cons_self, World.inspect_found hi⟩)
  | cooldown m inspected =>
    cases h
    split at hv
    · exact Or.inl hv
    · exact Or.inl (List.mem_cons_of_mem _ hv)
  | start m inspected =>
    simp only [Watch.step] at h
    split at h <;> cases h
    · rw [List.mem_singleton.mp hv]
      exact Or.inl List.mem_cons_self
    · exact Or.inl (List.mem_cons_of_mem _ hv)
  | reinspect m =>
    simp only [Watch.step] at h
    split at h <;> cases h
    · exact Or.inl hv
    · cases hv
  | refresh m fresh =>
    cases h
    cases hv
  | liftRead m =>
    simp only [Watch.step] at h
    split at h
    · cases h
      exact Or.inl (hnil hv (hret false))
    · split at h <;> cases h
      · exact Or.inl (hnil hv (hret false))
      · split at hv <;> cases hv
  | liftInspect m x =>
    simp only [Watch.step] at h
    split at h <;> cases h
    · exact Or.inl (hnil hv (hret false))
    · cases hv
    · split at hv
      · cases hv
      · exact Or.inl (hnil hv (hret false))
  | retryLater m | markReady m =>
    cases h
    exact Or.inl (hnil hv (hret false))
  | lift m =>
    have hp : pc' = .markReady m ∨ pc' = role.ret false := by
      simp only [Watch.step] at h
      have hpc := congrArg Prod.fst (congrArg Prod.snd (Option.some.inj h))
      dsimp only at hpc
      rw [← hpc]
      split
      · exact Or.inl rfl
      · exact Or.inr rfl
    rcases hp with rfl | rfl
    · cases hv
    · exact Or.inl (hnil hv (hret false))
  | claim m x site =>
    simp only [Watch.step] at h
    split at h <;> cases h <;> split at hv
    · exact Or.inl hv
    · exact Or.inl hv
    · exact Or.inl (hnil hv (hret false))
    · exact Or.inl hv
  | remove m x =>
    simp only [Watch.step] at h
    split at h <;> cases h <;> exact Or.inl hv
  | releaseLeases m x site =>
    cases h
    exact Or.inl hv
  | deletePod m x site attempt =>
    simp only [Watch.step] at h
    split at h <;> cases h
    · split at hv
      · exact Or.inl hv
      · cases site <;> exact Or.inl hv
    · exact Or.inl hv
  | untrack m x site =>
    cases h
    cases site <;> exact Or.inl hv
  | finish m x site result =>
    cases h
    split at hv
    · exact Or.inl (hnil hv (hret result))
    · exact Or.inl hv
  | check m x site =>
    cases h
    cases site with
    | gone =>
      dsimp only at hv
      split at hv
      · exact Or.inl hv
      · exact Or.inl (hnil hv (hret false))
    | recheck => exact Or.inl (hnil hv (hret _))
    | removed =>
      dsimp only at hv
      split at hv <;> exact Or.inl hv
  | schedule m x site =>
    cases h
    split at hv
    · exact Or.inl hv
    · exact Or.inl (hnil hv (hret true))
  | sleep =>
    cases role with
    | event => cases h
    | recheck vmID =>
      cases h
      split at hv <;> cases hv
  | look =>
    cases role with
    | event => cases h
    | recheck vmID =>
      obtain ⟨m, hm, h⟩ := Option.map_eq_some_iff.mp h
      cases m with
      | none =>
        cases h
        cases hv
      | some m =>
        cases h
        obtain ⟨hp, hb, hid⟩ := World.podForVMMatch_some hm
        exact Or.inr (Or.inr ⟨m, List.mem_singleton.mp hv, hp, hb, Or.inr (by rw [hid rfl])⟩)
  | recheckInspect m =>
    cases role with
    | event => cases h
    | recheck vmID =>
      simp only [Watch.step] at h
      split at h <;> cases h
      · exact Or.inl hv
      · split at hv
        · exact Or.inl hv
        · cases hv
      · split at hv <;> cases hv
  | leave =>
    cases role <;> cases h
    cases hv
  | done => cases h

theorem Watch.step_clean (ht : Kept u w.tables) (hf : w.Filed u) {g : Watch} (hg : g.Clean u)
    {pc' : GonePC} {new : List Watch} (h : Watch.step w g.role a g.pc = some (w', pc', new)) :
    Watch.Clean u { g with pc := pc' } ∧ ∀ n ∈ new, n.Clean u := by
  constructor
  · refine ⟨hg.role, fun v hv => ?_⟩
    rcases Watch.step_vms h hv with hold | ⟨x, hx, hget⟩ | ⟨m, rfl, hp, hb, hhow⟩
    · exact hg.vms v hold
    · rw [(hf _ _ hget).1]
      exact hg.vms x hx
    · intro hid
      obtain ⟨hkey, -⟩ := ht.bound _ _ hb hid
      rcases hhow with hman | hrole
      · rw [hkey] at hp
        rw [ht.pod _ hp] at hman
        cases hman
      · rw [hid] at hrole
        exact hg.role hrole
  · intro n hn
    obtain ⟨m, v, site, hpc, rfl⟩ := Watch.step_new h hn
    have hv : v.id ≠ u.vmid := hg.vms v (by rw [hpc]; exact List.mem_cons_self)
    refine ⟨fun hr => ?_, fun x hx => by cases hx⟩
    exact hv (Role.recheck.inj hr)

theorem Watch.op_harmless {g : Watch} (hg : g.Clean u) {op : TableOp}
    (hop : Watch.op w g.role a g.pc = some op) : op.Harmless u := by
  obtain ⟨role, pc⟩ := g
  cases pc with
  | refresh m fresh =>
    cases hop
    exact hg.vms m.v List.mem_cons_self
  | schedule m v site =>
    simp only [Watch.op] at hop
    split at hop <;> cases hop
    trivial
  | leave =>
    cases role <;> cases hop
    trivial
  | flags m | cooldown m v | retryLater m | lift m | markReady m | claim m v site | untrack m v site
  | finish m v site b =>
    cases hop
    trivial
  | _ => cases hop

/-! ### Hibernates -/

theorem Hib.step_clean {h : Hib} (hh : h.Clean u) {s : World × Hib} (hs : h.step w a.reply = some s) :
    s.2.Clean u := by
  obtain ⟨pc, pre, heq, hedge⟩ := Hib.step_edge hs
  rw [heq]
  refine ⟨hh.key, hh.vm, fun v hv => ?_⟩
  rcases hedge.vm v hv with hid | hold
  · rw [hid]
    exact hh.vm
  · exact hh.bound v hold

theorem Hib.op_harmless {h : Hib} (hh : h.Clean u) {op : TableOp} (hop : h.op = some op) :
    op.Harmless u := by
  have hbind : ∀ v : VM, h.pc.vm = some v → v.id ≠ u.vmid := hh.bound
  unfold Hib.op at hop
  cases hpc : h.pc with
  | refreshNIC msg fresh =>
    rw [hpc] at hop
    cases hop
    exact hh.vm
  | bind msg v =>
    have hv := hbind v (by rw [hpc]; rfl)
    rw [hpc] at hop
    cases hop
    exact ⟨fun hk => absurd hk hh.key, fun hid => absurd hid hv⟩
  | detach msg v =>
    have hv := hbind v (by rw [hpc]; rfl)
    rw [hpc] at hop
    cases hop
    intro x hx hid
    cases hx
    exact absurd hid hv
  | startHibernate | markHibernating | clear | clearAgain | stamp | fail | forgetVM | markHibernated |
      finishHibernate =>
    rw [hpc] at hop
    cases hop
    trivial
  | _ =>
    rw [hpc] at hop
    cases hop

/-! ### Calls -/

/- Where the records of a call come from. -/
theorem Bring.step_vms {b : Bring} {pc' : BringPC} {new : List PodThread} {v : VM}
    (h : b.step w a = some (w', pc', new)) (hv : v ∈ pc'.vms) :
    v ∈ b.pc.vms ∨ (∃ x r, b.pc = .seed x r ∧ v = w.seedLeaseIP x a.reply) ∨
    w.tables.vmsByPod.get b.pod.key = some v ∨ w.tables.vmsByName.get b.pod.spec.vmName = some v ∨
    (v = b.launched ∧ (b.pod.spec.managed = true ∨ ∃ prev, b.pc = .wakeClone prev)) ∨
    (b.pod.spec.managed = false ∧ v = unmanagedVM b.pod) := by
  have hsome : ∀ {o : Option VM}, v ∈ o.toList → o = some v := fun hm => Option.mem_toList.mp hm
  unfold Bring.step at h
  cases hpc : b.pc with
  | look =>
    rw [hpc] at h
    cases h
    split at hv
    · split at hv
      · cases hv
      · exact Or.inr (Or.inr (Or.inl (hsome hv)))
    · split at hv <;> exact Or.inr (Or.inr (Or.inl (hsome hv)))
  | trackUpdate x =>
    rw [hpc] at h
    cases h
    split at hv
    · exact Or.inl hv
    · cases hv
  | takeRetry x =>
    rw [hpc] at h
    cases h
    exact Or.inl hv
  | index =>
    rw [hpc] at h
    cases h
    split at hv
    next existing hex =>
      split at hv
      · cases hv
      · rw [List.mem_singleton.mp hv]
        exact Or.inr (Or.inr (Or.inr (Or.inl hex)))
    next => cases hv
  | adoptInspect x attempt =>
    rw [hpc] at h
    cases h
    split at hv
    · exact Or.inl hv
    · exact Or.inl hv
    · split at hv
      · exact Or.inl hv
      · cases hv
  | bringUp restoring =>
    simp only [hpc] at h
    split at h
    next hm =>
      cases h
      split at hv
      · cases hv
      · rw [List.mem_singleton.mp hv]
        exact Or.inr (Or.inr (Or.inr (Or.inr (Or.inr ⟨by simpa using hm, rfl⟩))))
    next hm =>
      split at h <;> cases h
      · rw [List.mem_singleton.mp hv]
        exact Or.inr (Or.inr (Or.inr (Or.inr (Or.inl ⟨rfl, Or.inl (by simpa using hm)⟩))))
      · cases hv
  | seed x r =>
    rw [hpc] at h
    cases h
    exact Or.inr (Or.inl ⟨x, r, rfl, List.mem_singleton.mp hv⟩)
  | bind x site =>
    rw [hpc] at h
    cases h
    split at hv
    · exact Or.inl hv
    · cases hv
  | stamp x site =>
    rw [hpc] at h
    cases h
    split at hv <;> exact Or.inl hv
  | patch x site =>
    rw [hpc] at h
    cases h
    split at hv
    · exact Or.inl hv
    · cases site <;> exact Or.inl hv
  | dispatch x restoring =>
    rw [hpc] at h
    cases h
    split at hv
    · cases hv
    · split at hv
      · cases hv
      · split at hv
        · cases hv
        · exact Or.inl hv
  | markBootDone x =>
    rw [hpc] at h
    cases h
    exact Or.inl hv
  | resume =>
    simp only [hpc] at h
    split at h
    · cases h
      cases hv
    next x hx =>
      cases h
      cases howed : owedOpFor (w.tables.podNow b.pod) (some x) with
      | none =>
        rw [howed] at hv
        cases hv
      | some op =>
        rw [howed] at hv
        rw [List.mem_singleton.mp hv]
        exact Or.inr (Or.inr (Or.inl hx))
  | owed x =>
    rw [hpc] at h
    cases h
    cases howed : owedOpFor (w.tables.podNow b.pod) (some x) with
    | none =>
      rw [howed] at hv
      cases hv
    | some op =>
      rw [howed] at hv
      exact Or.inl hv
  | classify x =>
    simp only [hpc] at h
    split at h <;> cases h
    · cases hv
    · split at hv
      · exact Or.inl hv
      · split at hv <;> cases hv
  | wakeClone prev =>
    simp only [hpc] at h
    split at h <;> cases h
    · rw [List.mem_singleton.mp hv]
      exact Or.inr (Or.inr (Or.inr (Or.inr (Or.inl ⟨rfl, Or.inr ⟨prev, rfl⟩⟩))))
    · cases hv
  | backoff | detachOld | track | readyAtOnce | markReady =>
    rw [hpc] at h
    cases h
    split at hv <;> cases hv
  | wakeSourceCheck =>
    rw [hpc] at h
    cases h
    split at hv
    · cases hv
    · split at hv <;> cases hv
  | apply x prev =>
    simp only [hpc] at h
    split at h
    · cases h
      cases hv
    · split at h
      · split at h <;> cases h <;> cases hv
      · cases h
        split at hv
        · cases hv
        · split at hv <;> cases hv
  | evidence =>
    rw [hpc] at h
    cases h
    split at hv
    · cases hv
    · split at hv
      · cases hv
      · split at hv
        · cases hv
        · split at hv <;> cases hv
  | claim x op | resumeStart x =>
    simp only [hpc] at h
    split at h <;> cases h <;> cases hv
  | wakeSource prev =>
    rw [hpc] at h
    cases h
    cases hr : a.reply.err with
    | none =>
      rw [hr] at hv
      cases hv
    | some e =>
      rw [hr] at hv
      cases hv
  | liftRead site =>
    simp only [hpc] at h
    split at h
    · cases h
      cases hv
    · split at h <;> cases h
      · cases site <;> cases hv
      · split at hv <;> cases hv
  | liftInspect x site =>
    rw [hpc] at h
    cases h
    split at hv
    · cases site <;> cases hv
    · cases hv
    · split at hv
      · cases hv
      · cases site <;> cases hv
  | lift site =>
    have hp : pc' = .markReady false ∨ pc' = site.notLifted := by
      simp only [hpc] at h
      have hp := congrArg Prod.fst (congrArg Prod.snd (Option.some.inj h))
      dsimp only at hp
      rw [← hp]
      split
      · exact Or.inl rfl
      · exact Or.inr rfl
    rcases hp with rfl | rfl
    · cases hv
    · cases site <;> cases hv
  | done =>
    rw [hpc] at h
    cases h
  | _ =>
    rw [hpc] at h
    cases h
    cases hv

/- The records a call of another pod comes to hold are not those of `u`. -/
theorem Bring.Away.step_vms (ht : Kept u w.tables) {b : Bring} (hb : b.Away u) {pc' : BringPC}
    {new : List PodThread} (h : b.step w a = some (w', pc', new)) :
    Bring.Away u { b with pc := pc' } := by
  obtain ⟨hkey, hname, hvmid⟩ := hb.pod
  refine ⟨hb.pod, hb.launched, fun v hv => ?_⟩
  rcases Bring.step_vms h hv with hold | ⟨x, r, hpc, rfl⟩ | hbound | hnamed | ⟨rfl, -⟩ | ⟨-, rfl⟩
  · exact hb.vms v hold
  · rw [World.seedLeaseIP_id]
    exact hb.vms x (by rw [hpc]; exact List.mem_cons_self)
  · exact fun hid => hkey (ht.bound _ _ hbound hid).1
  · exact fun hid => hname (ht.named _ _ hnamed hid).1
  · exact hb.launched
  · exact hvmid

theorem owedOpFor_unmanaged {p : Pod} (hp : p.spec.managed = false) {v : Option VM} {op : ResumeOp}
    (h : owedOpFor p v = some op) : op = .readyWait := by
  unfold owedOpFor at h
  cases v with
  | none => cases h
  | some v =>
    simp only [hp, Bool.not_false, if_true] at h
    split at h
    · cases h
    · split at h <;> cases h
      rfl

theorem Kept.podNow_unmanaged (ht : Kept u w.tables) {p : Pod} (hp : u.Copy p) :
    (w.tables.podNow p).spec.managed = false := by
  unfold Tables.podNow
  split
  next tracked htr =>
    split
    · rw [hp.1] at htr
      exact ht.pod tracked htr
    · exact hp.2.1
  next => exact hp.2.1

theorem Bring.Home.step_mild (ht : Kept u w.tables) {b : Bring} (hb : b.Home u) {pc' : BringPC}
    {new : List PodThread} (h : b.step w a = some (w', pc', new)) :
    pc'.mild b.pod.restoreFromHibernate = true := by
  have hman : b.pod.spec.managed = false := hb.pod.2.1
  have hmild := hb.mild
  have howed : ∀ (v : VM) (pc : BringPC), pc.mild b.pod.restoreFromHibernate = true →
      (((owedOpFor (w.tables.podNow b.pod) (some v)).map (.claim v)).getD pc).mild
        b.pod.restoreFromHibernate = true := by
    intro v pc hpc
    cases ho : owedOpFor (w.tables.podNow b.pod) (some v) with
    | none => exact hpc
    | some op =>
      rw [owedOpFor_unmanaged (ht.podNow_unmanaged hb.pod) ho]
      rfl
  have hite : ∀ {c : Prop} [Decidable c] {x y : BringPC}, x.mild b.pod.restoreFromHibernate = true →
      y.mild b.pod.restoreFromHibernate = true →
      (if c then x else y).mild b.pod.restoreFromHibernate = true := by
    intro c _ x y hx hy
    split
    · exact hx
    · exact hy
  unfold Bring.step at h
  cases hpc : b.pc with
  | look =>
    rw [hpc] at h
    cases h
    split
    · exact hite rfl rfl
    · exact hite rfl rfl
  | wakeSourceCheck =>
    rw [hpc] at h
    cases h
    exact hite rfl (hite rfl rfl)
  | apply x prev =>
    simp only [hpc, hman] at h
    cases h
    rfl
  | index =>
    rw [hpc] at h
    cases h
    split
    · exact hite rfl rfl
    · rfl
  | adoptInspect x attempt =>
    rw [hpc] at h
    cases h
    split
    · rfl
    · rfl
    · exact hite rfl rfl
  | evidence =>
    simp only [hpc, hman] at h
    cases h
    show (!b.pod.restoreFromHibernate || b.pod.restoreFromHibernate) = true
    exact Bool.not_or_self _
  | bringUp restoring =>
    rw [hpc] at hmild
    simp only [hpc, hman] at h
    cases h
    exact hite rfl hmild
  | bind x site =>
    rw [hpc] at h hmild
    cases h
    exact hite hmild rfl
  | stamp x site =>
    rw [hpc] at h hmild
    cases h
    exact hite hmild rfl
  | patch x site =>
    rw [hpc] at h hmild
    cases h
    refine hite rfl ?_
    cases site with
    | adopt => rfl
    | launch restoring => exact hmild
    | wake => cases hmild
  | dispatch x restoring =>
    simp only [hpc, hman] at h
    cases h
    exact hite rfl rfl
  | resume =>
    simp only [hpc] at h
    split at h <;> cases h
    · rfl
    · exact howed _ _ rfl
  | owed x =>
    rw [hpc] at h
    cases h
    exact howed _ _ rfl
  | claim x op =>
    simp only [hpc] at h
    split at h <;> cases h <;> rfl
  | liftRead site =>
    simp only [hpc] at h
    split at h
    · cases h
      rfl
    · split at h <;> cases h
      · cases site <;> rfl
      · exact hite rfl rfl
  | liftInspect x site =>
    rw [hpc] at h
    cases h
    have hnot : site.notLifted.mild b.pod.restoreFromHibernate = true := by cases site <;> rfl
    split
    · exact hnot
    · rfl
    · exact hite rfl hnot
  | lift site =>
    rw [hpc] at h
    cases h
    exact hite rfl (by cases site <;> rfl)
  | backoff | detachOld | trackUpdate | track | readyAtOnce | markReady =>
    rw [hpc] at h
    cases h
    exact hite rfl rfl
  | resumeStart | resumeFail | classify | classifyFail | restore | seed | bootWait | markBootDone
  | wakeCreating | wakeClear | wakeSource | wakeClone | wakeFail =>
    rw [hpc] at hmild
    cases hmild
  | done =>
    rw [hpc] at h
    cases h
  | _ =>
    rw [hpc] at h
    cases h
    rfl

theorem Bring.Home.step_vms (ht : Kept u w.tables) {b : Bring} (hb : b.Home u) {pc' : BringPC}
    {new : List PodThread} (h : b.step w a = some (w', pc', new)) :
    Bring.Home u { b with pc := pc' } := by
  have hmild := hb.mild
  refine ⟨hb.pod, hb.plain, hb.step_mild ht h, fun v hv hid => ?_⟩
  rcases Bring.step_vms h hv with hold | ⟨x, r, hpc, -⟩ | hbound | hnamed | ⟨-, hman | ⟨prev, hpc⟩⟩ |
    ⟨-, rfl⟩
  · exact hb.vms v hold hid
  · rw [hpc] at hmild
    cases hmild
  · exact (ht.bound _ _ hbound hid).2
  · exact (ht.named _ _ hnamed hid).2
  · rw [hb.pod.2.1] at hman
    cases hman
  · rw [hpc] at hmild
    cases hmild
  · exact unmanagedVM_static hb.pod

theorem Bring.Away.op_harmless {b : Bring} (hb : b.Away u) {op : TableOp}
    (hop : b.op a = some op) : op.Harmless u := by
  have hkey : b.pod.key ≠ u.key := hb.pod.1
  have hvm : ∀ v ∈ b.pc.vms, v.id ≠ u.vmid := hb.vms
  unfold Bring.op at hop
  cases hpc : b.pc with
  | detachOld uid v =>
    rw [hpc] at hop hvm
    cases hop
    exact fun x hx hid => absurd hid (hvm x (Option.mem_toList.mpr hx))
  | trackUpdate | track =>
    rw [hpc] at hop
    cases hop
    exact ⟨fun hk => absurd hk hkey, fun x hx => by cases hx⟩
  | bind v site =>
    rw [hpc] at hop hvm
    cases hop
    exact ⟨fun hk => absurd hk hkey, fun hid => absurd hid (hvm v List.mem_cons_self)⟩
  | detach v =>
    rw [hpc] at hop hvm
    cases hop
    intro x hx hid
    cases hx
    exact absurd hid (hvm v List.mem_cons_self)
  | takeRetry | republish | retryLater | markCreating | wakeCreating | dropIndex | stamp | markBootDone
  | fail | resumeFail | classifyFail | wakeFail | failCreate | claim | resumeRetry | releaseResume
  | wakeClear | lift | markReady =>
    rw [hpc] at hop
    cases hop
    trivial
  | _ =>
    rw [hpc] at hop
    cases hop

theorem Bring.Home.op_harmless {b : Bring} (hb : b.Home u) {op : TableOp}
    (hop : b.op a = some op) : op.Harmless u := by
  have hkey : b.pod.key = u.key := hb.pod.1
  have hman : b.pod.spec.managed = false := hb.pod.2.1
  have hvm : ∀ v ∈ b.pc.vms, v.id = u.vmid → v.Static u := hb.vms
  unfold Bring.op at hop
  cases hpc : b.pc with
  | detachOld uid v =>
    rw [hpc] at hop hvm
    cases hop
    exact fun x hx => hvm x (Option.mem_toList.mpr hx)
  | trackUpdate | track =>
    rw [hpc] at hop
    cases hop
    exact ⟨fun _ => hman, fun x hx => by cases hx⟩
  | bind v site =>
    rw [hpc] at hop hvm
    cases hop
    exact ⟨fun _ => hman, fun hid => ⟨hkey, hvm v List.mem_cons_self hid⟩⟩
  | detach v =>
    rw [hpc] at hop hvm
    cases hop
    intro x hx hid
    cases hx
    exact hvm v List.mem_cons_self hid
  | takeRetry | republish | retryLater | markCreating | wakeCreating | dropIndex | stamp | markBootDone
  | fail | resumeFail | classifyFail | wakeFail | failCreate | claim | resumeRetry | releaseResume
  | wakeClear | lift | markReady =>
    rw [hpc] at hop
    cases hop
    trivial
  | _ =>
    rw [hpc] at hop
    cases hop

/- A tail for another VM has looked at no record yet when it starts. -/
theorem Bring.Starts.clean {t : Tail} (h : Bring.Starts (.tail t)) (hv : t.job.v.id ≠ u.vmid) :
    t.Clean u := by
  have hsees : t.pc.sees = [] := by
    rcases h with h | h | h <;> rw [h]
    · unfold Job.postClone
      split <;> rfl
    · unfold Job.readyWait
      split <;> rfl
    · rfl
  refine Or.inl ⟨hv, fun v hm => ?_⟩
  rw [hsees] at hm
  cases hm

theorem Bring.restored_clean {b : Bring} {v : VM} (hv : v.id ≠ u.vmid) :
    (NodeThread.pod (b.restored v)).Clean u := by
  have hs := b.restored_starts v
  unfold Bring.restored at hs ⊢
  split at hs
  next hd =>
    rw [if_pos hd]
    exact Starts.clean hs hv
  next hd =>
    rw [if_neg hd]
    exact Starts.clean hs hv

theorem Bring.Away.fork {b : Bring} (hb : b.Away u) {t : PodThread} (hf : b.Fork t) :
    (b.forked w t).Clean u := by
  have hvm : ∀ v ∈ b.pc.vms, v.id ≠ u.vmid := hb.vms
  have hnil : ∀ pc : BringPC, pc.vms = [] → Bring.Away u { b with pc := pc } := by
    intro pc hpc
    refine ⟨hb.pod, hb.launched, fun v hv => ?_⟩
    rw [show ({ b with pc := pc } : Bring).pc = pc from rfl, hpc] at hv
    cases hv
  have hone : ∀ pc v, pc.vms = [v] → v.id ≠ u.vmid → Bring.Away u { b with pc := pc } := by
    intro pc v hpc hid
    refine ⟨hb.pod, hb.launched, fun x hx => ?_⟩
    rw [show ({ b with pc := pc } : Bring).pc = pc from rfl, hpc] at hx
    rw [List.mem_singleton.mp hx]
    exact hid
  unfold Bring.forked
  cases hf with
  | @hibernate v prev hpc hm =>
    rw [hpc] at hvm ⊢
    exact ⟨hb.pod.1, hvm v List.mem_cons_self, fun x hx => by cases hx⟩
  | @resumeStart v hpc =>
    rw [hpc] at hvm ⊢
    exact ⟨hb.pod.1, hvm v List.mem_cons_self, fun x hx => by cases hx⟩
  | @restoring v hpc =>
    rw [hpc] at hvm ⊢
    exact restored_clean (hvm v List.mem_cons_self)
  | @restore v hpc =>
    rw [hpc] at hvm ⊢
    exact restored_clean (hvm v List.mem_cons_self)
  | @cloned v r hpc hc =>
    rw [hpc] at hvm ⊢
    exact Starts.clean (Or.inl rfl) (hvm v List.mem_cons_self)
  | @fresh v hpc =>
    rw [hpc] at hvm ⊢
    exact Starts.clean (Or.inl rfl) (hvm v List.mem_cons_self)
  | @bootWait v hpc =>
    rw [hpc] at hvm ⊢
    exact Starts.clean (Or.inr (Or.inl rfl)) (hvm v List.mem_cons_self)
  | @woken v hpc =>
    rw [hpc] at hvm ⊢
    exact Starts.clean (Or.inr (Or.inl rfl)) (hvm v List.mem_cons_self)
  | @claim v op hpc =>
    rw [hpc] at hvm ⊢
    have hv := hvm v List.mem_cons_self
    cases op with
    | hibernate => exact Or.inl (hone (.resumeStart v) v rfl hv)
    | snapshot =>
      dsimp only
      split
      · exact ⟨hb, hv⟩
      · exact Or.inl (hnil .releaseResume rfl)
    | postClone => exact Starts.clean (Or.inl rfl) hv
    | readyWait =>
      simp only [Bring.resumed]
      split
      · exact Starts.clean (Or.inr (Or.inl rfl)) hv
      · exact Or.inl (hnil (.markReady true) rfl)
    | classifyNIC => exact Or.inl (hone (.classify v) v rfl hv)

/- The restore of a plain pod waits for an address at most. -/
theorem Bring.Home.restored_clean {b : Bring} (hb : b.Home u) (hr : b.pod.restoreFromHibernate = true)
    {v : VM} (hv : v.id = u.vmid → v.Static u) : (NodeThread.pod (b.restored v)).Clean u := by
  by_cases hid : v.id = u.vmid
  · unfold Bring.restored
    split
    · exact Or.inr ⟨hid, trivial⟩
    next hd =>
      obtain ⟨hos, hbackend⟩ := hb.plain hr (by simpa using hd)
      obtain ⟨-, -, -, hnics⟩ := hv hid
      refine Or.inr ⟨hid, ?_⟩
      have hneeded : postCloneNeeded b.pod.spec v = false := by
        simp [postCloneNeeded, hos, hbackend, hnics]
      simp only [Job.postClone, hneeded]
      trivial
  · exact Bring.restored_clean hid

theorem Bring.Home.fork {b : Bring} (hb : b.Home u) {t : PodThread} (hf : b.Fork t) :
    (b.forked w t).Clean u := by
  have hman : b.pod.spec.managed = false := hb.pod.2.1
  have hmild := hb.mild
  have hvm : ∀ v ∈ b.pc.vms, v.id = u.vmid → v.Static u := hb.vms
  unfold Bring.forked
  cases hf with
  | hibernate hpc hm =>
    rw [hman] at hm
    cases hm
  | cloned hpc hc =>
    simp [isClonedBoot, hman] at hc
  | @restoring v hpc =>
    rw [hpc] at hmild hvm ⊢
    exact hb.restored_clean hmild (hvm v List.mem_cons_self)
  | @claim v op hpc =>
    rw [hpc] at hmild ⊢
    cases op with
    | readyWait =>
      simp only [Bring.resumed, hman]
      exact Or.inr ⟨hb.pod, hb.plain, rfl, fun x hx => by cases hx⟩
    | _ => cases hmild
  | resumeStart hpc | bootWait hpc | restore hpc | woken hpc | fresh hpc =>
    rw [hpc] at hmild
    cases hmild

/-! ### Tails, probes, snapshots and deletes -/

theorem resolveVMIP_static {v : VM} (hv : v.Static u) (r : Reply) :
    w.resolveVMIP v r = (v.ip, false) := by
  obtain ⟨-, hmac, -, -⟩ := hv
  simp [World.resolveVMIP, hmac]

theorem Job.unlessCut_waits {pc : TailPC} (h : pc.Waits u) : (Job.unlessCut w a pc).Waits u := by
  unfold Job.unlessCut
  split
  · trivial
  · exact h

theorem Job.resolved_sees (ip : String) : (Job.resolved w a ip).sees = [] := by
  unfold Job.resolved Job.unlessCut
  split
  · rfl
  · split
    · rfl
    · split <;> rfl

theorem Job.resolved_waits {ip : String} (h : ip ≠ "") : (Job.resolved w a ip).Waits u := by
  unfold Job.resolved
  refine Job.unlessCut_waits ?_
  rw [if_pos (by simpa using h)]
  trivial

/- A record that a tail resolves has the ID of the VM it was started with. -/
theorem Job.step_sees {job : Job} {pc pc' : TailPC} (h : job.step w a pc = some (w', pc')) {v : VM}
    (hv : v ∈ pc'.sees) : v ∈ pc.sees ∨ v.id = job.v.id := by
  have hcut : ∀ {pc : TailPC}, pc.sees = [] → (Job.unlessCut w a pc).sees = [] := by
    intro pc hpc
    unfold Job.unlessCut
    split
    · rfl
    · exact hpc
  have hnil : ∀ {l : List VM}, v ∈ l → l = [] → v ∈ pc.sees ∨ v.id = job.v.id := by
    intro l hl he
    rw [he] at hl
    cases hl
  cases pc with
  | exec attempt errs =>
    simp only [Job.step] at h
    split at h <;> cases h
    · exact hnil hv (hcut rfl)
    · refine hnil hv (hcut ?_)
      split <;> rfl
  | markDone =>
    cases h
    unfold Job.readyWait at hv
    split at hv <;> cases hv
  | sac =>
    simp only [Job.step] at h
    split at h <;> cases h
    · split at hv <;> cases hv
    · cases hv
  | check =>
    cases h
    split at hv <;> cases hv
  | lookup =>
    simp only [Job.step] at h
    split at h <;> cases h
    · split at hv
      next hid =>
        rw [List.mem_singleton.mp hv]
        exact Or.inr hid
      next => exact hnil hv (hcut rfl)
    · exact hnil hv (hcut rfl)
  | lease seen =>
    simp only [Job.step] at h
    split at h <;> cases h
    · exact Or.inl hv
    · exact hnil hv (Job.resolved_sees _)
  | store seen ip =>
    cases h
    exact hnil hv (Job.resolved_sees _)
  | done => cases h
  | _ =>
    cases h
    cases hv

theorem Tail.step_clean (ht : Kept u w.tables) {t : Tail} (h : t.Clean u) {pc' : TailPC}
    (hs : t.job.step w a t.pc = some (w', pc')) : Tail.Clean u { t with pc := pc' } := by
  rcases h with ⟨hid, hsees⟩ | ⟨hid, hwaits⟩
  · refine Or.inl ⟨hid, fun v hv => ?_⟩
    rcases Job.step_sees hs hv with hold | heq
    · exact hsees v hold
    · rw [heq]
      exact hid
  · refine Or.inr ⟨hid, ?_⟩
    obtain ⟨job, pc⟩ := t
    cases pc with
    | lookup =>
      simp only [Job.step] at hs
      split at hs <;> cases hs
      next seen hget =>
        split
        next heq => exact (ht.bound _ _ hget (heq.trans hid)).2
        next => exact Job.unlessCut_waits trivial
      next => exact Job.unlessCut_waits trivial
    | check =>
      cases hs
      dsimp only
      split <;> trivial
    | lease seen =>
      have hstatic : seen.Static u := hwaits
      simp only [Job.step, resolveVMIP_static hstatic] at hs
      cases hs
      exact Job.resolved_waits hstatic.2.2.1
    | ready | timeout | leave =>
      cases hs
      trivial
    | done => cases hs
    | _ => cases hwaits

theorem Tail.op_harmless {t : Tail} (h : t.Clean u) {op : TableOp} (hop : t.job.op t.pc = some op) :
    op.Harmless u := by
  obtain ⟨job, pc⟩ := t
  cases pc with
  | store seen ip =>
    cases hop
    rcases h with ⟨-, hsees⟩ | ⟨-, hwaits⟩
    · exact hsees seen List.mem_cons_self
    · cases hwaits
  | leave =>
    simp only [Job.op] at hop
    split at hop <;> cases hop
    trivial
  | markRunning | markDone | markExhausted | markSAC | failExhausted | failSAC | ready | timeout =>
    cases hop
    trivial
  | _ => cases hop

theorem Job.nudge_id {job : Job} {seen : VM} {ip : String} {x : VMID} (h : job.nudge seen ip = some x) :
    ip = "" ∧ x = seen.id := by
  unfold Job.nudge at h
  split at h
  next hc =>
    cases h
    exact ⟨hc.1, rfl⟩
  next => cases h

theorem Tail.operates_clean {t : Tail} (h : t.Clean u) : t.job.operates w a t.pc ≠ some u.vmid := by
  intro ho
  obtain ⟨job, pc⟩ := t
  rcases h with ⟨hid, hsees⟩ | ⟨-, hwaits⟩
  · cases pc with
    | exec attempt errs => exact hid (Option.some.inj ho)
    | sac =>
      simp only [Job.operates] at ho
      split at ho
      · exact hid (Option.some.inj ho)
      · cases ho
    | lease seen =>
      simp only [Job.operates] at ho
      split at ho
      · cases ho
      · exact hsees seen List.mem_cons_self (Job.nudge_id ho).2.symm
    | store seen ip => exact hsees seen List.mem_cons_self (Job.nudge_id ho).2.symm
    | _ => cases ho
  · cases pc with
    | lease seen =>
      have hstatic : seen.Static u := hwaits
      simp only [Job.operates, resolveVMIP_static hstatic] at ho
      exact hstatic.2.2.1 (Job.nudge_id ho).1
    | exec | sac | store => cases hwaits
    | _ => cases ho

theorem ProbePC.step_clean (ht : Kept u w.tables) {key : Key} {pc pc' : ProbePC} (h : pc.Clean u)
    (hs : pc.step w a key = some (w', pc')) : pc'.Clean u := by
  cases pc with
  | lookup =>
    cases hs
    cases hget : w.tables.vmsByPod.get key with
    | none => trivial
    | some seen => exact fun hid => (ht.bound _ _ hget hid).2
  | lease seen =>
    simp only [ProbePC.step] at hs
    split at hs <;> cases hs
    next ip hr =>
      intro hid
      rw [resolveVMIP_static (h hid)] at hr
      cases hr
    next => trivial
  | store seen ip =>
    cases hs
    trivial
  | done => cases hs

theorem ProbePC.op_harmless {key : Key} {pc : ProbePC} (h : pc.Clean u) {op : TableOp}
    (hop : pc.op key = some op) : op.Harmless u := by
  cases pc <;> cases hop
  exact h

theorem SnapshotCall.step_clean {s : SnapshotCall} (h : (NodeThread.snapshot s).Clean u) :
    (s.step w a).2.Clean u := by
  have hret : ∀ b, (s.ret b).Clean u := by
    intro b
    refine Or.inl ⟨h.1.pod, h.1.launched, fun v hv => ?_⟩
    change v ∈ (s.site.ret b).vms at hv
    cases hsite : s.site <;> cases b <;> rw [hsite] at hv <;> cases hv
  unfold SnapshotCall.step
  split
  · dsimp only
    split
    · exact hret false
    · exact h
  · split <;> exact h
  · exact h
  · exact h
  · exact hret _

theorem Delete.step_clean (ht : Kept u w.tables) {d : Delete} (h : d.Clean u) {pc' : DeletePC}
    (hs : d.step w a = some (w', pc')) : Delete.Clean u { d with pc := pc' } := by
  have hclean : ∀ name, (d.cleanup name).vms = [] := by
    intro name
    unfold Delete.cleanup
    split <;> rfl
  have hnil : ∀ {v : VM} {l : List VM}, v ∈ l → l = [] → v.id ≠ u.vmid := by
    intro v l hv hl
    rw [hl] at hv
    cases hv
  refine ⟨h.pod, fun v hv => ?_⟩
  change v ∈ pc'.vms at hv
  have hold : ∀ v ∈ d.pc.vms, v.id ≠ u.vmid := h.vms
  unfold Delete.step at hs
  cases hpc : d.pc with
  | claim =>
    simp only [hpc] at hs
    split at hs <;> cases hs <;> cases hv
  | backoff =>
    rw [hpc] at hs
    cases hs
    split at hv <;> cases hv
  | look =>
    rw [hpc] at hs
    cases hs
    split at hv
    · cases hv
    next hm =>
      split at hv
      · exact hnil hv (hclean _)
      next x hget =>
        have hx : x.id ≠ u.vmid := by
          intro hid
          rw [h.pod (ht.bound _ _ hget hid).1] at hm
          exact hm rfl
        split at hv <;> rw [List.mem_singleton.mp hv] <;> exact hx
  | inspect x =>
    rw [hpc] at hs hold
    cases hs
    split at hv
    · exact hold v hv
    · cases hv
    · split at hv <;> exact hold v hv
  | save x | remove x =>
    rw [hpc] at hold
    simp only [hpc] at hs
    split at hs <;> cases hs
    · exact hold v hv
    · cases hv
  | push x =>
    rw [hpc] at hs hold
    cases hs
    split at hv
    · cases hv
    · exact hold v hv
  | releaseLeases x =>
    rw [hpc] at hs
    cases hs
    exact hnil hv (hclean _)
  | done =>
    rw [hpc] at hs
    cases hs
  | _ =>
    rw [hpc] at hs
    cases hs
    cases hv

theorem Delete.op_harmless {d : Delete} {op : TableOp} (hop : d.op = some op) : op.Harmless u := by
  obtain ⟨pod, keepSnapshots, shouldSnapshot, pc⟩ := d
  cases pc <;> cases hop <;> trivial

end Steps
end VkCocoon
