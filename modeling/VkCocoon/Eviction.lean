import VkCocoon.Node

/-!
# Evictions and the VM of the pod

Five routes lead to `evictPod`: the VM is gone, its restart is too soon, its restart failed, the
recheck could not inspect it in time, and the deferred retry of any of these. Each looks at the
runtime first and claims the key afterwards, and the claim checks that the pod is still bound to
that VM. With VM IDs that are never given twice, the VM of the key is then gone for good.
-/

namespace VkCocoon
open Lib Tables

/-- What is noted of a run: the IDs that some VM had, and the incarnations that the apiserver no
longer had when it answered the delete of an eviction. -/
structure Evictions where
  used : List VMID
  settled : List (Key × UID)
deriving DecidableEq

/-- The IDs in the runtime and those of the bound VMs. -/
def World.ids (w : World) : List VMID :=
  w.runtime.toList.map (·.1) ++ w.tables.vmsByPod.toList.map (·.2.id)

namespace NodeThread

/-- The match of a thread in `evictPod`, before the apiserver has answered. -/
def evicting : NodeThread → Option Match
  | .pod (.gone (.watch ⟨_, .deletePod m _ _ _⟩)) => some m
  | _ => none

/-- The match of a thread that is about to untrack its key in `evictPod`. -/
def untracking : NodeThread → Option Match
  | .pod (.gone (.watch ⟨_, .untrack m _ _⟩)) => some m
  | _ => none

end NodeThread

namespace Evictions

def start (w : World) : Evictions := ⟨w.ids, []⟩

/-- The incarnation of an eviction that the apiserver does not have after the call. -/
def answered (t : NodeThread) (w : World) : List (Key × UID) :=
  match t.evicting with
  | some m => if w.apiPods.get m.key = some m.pod.uid then [] else [(m.key, m.pod.uid)]
  | none => []

def log (_ : World) (t : NodeThread) (_ : Answer) (w' : World) (_ : NodeThread) (h : Evictions) :
    Evictions := ⟨h.used ++ w'.ids, h.settled ++ answered t w'⟩

def logEnv (_ : World) (_ : PodAround) (w' : World) (h : Evictions) : Evictions :=
  { h with used := h.used ++ w'.ids }

end Evictions

abbrev EvictConfig := Config (World × Evictions) NodeThread

section Pool
variable {S : Type} [DecidableEq S] (snapshot : LifecycleStatus → S)

/-- The node, with notes. -/
def evictions : Program (World × Evictions) NodeThread Answer PodAround :=
  (nodeThreads snapshot).record Evictions.log Evictions.logEnv

/-- A VM that appears in the runtime has an ID that no VM had. -/
def NoReuse (c : EvictConfig) (e : NodeEvent) : Prop :=
  ∀ c' ∈ (evictions snapshot).next c e, ∀ kv ∈ c'.shared.1.runtime.toList,
    c.shared.1.runtime.has kv.1 = true ∨ kv.1 ∉ c.shared.2.used

instance (c : EvictConfig) (e : NodeEvent) : Decidable (NoReuse snapshot c e) :=
  inferInstanceAs (Decidable (∀ c' ∈ (evictions snapshot).next c e,
    ∀ kv ∈ c'.shared.1.runtime.toList,
      c.shared.1.runtime.has kv.1 = true ∨ kv.1 ∉ c.shared.2.used))

end Pool

/-- While a thread is in `evictPod` for a key, the VM bound to the key is not in the runtime, and
the key is untracked there only for an incarnation that the apiserver no longer had. -/
structure EvictsDead (c : EvictConfig) : Prop where
  dead : ∀ t ∈ c.threads, ∀ m ∈ t.evicting, ∀ v ∈ c.shared.1.tables.vmsByPod.get m.key,
    c.shared.1.runtime.has v.id = false
  settled : ∀ t ∈ c.threads, ∀ m ∈ t.untracking, (m.key, m.pod.uid) ∈ c.shared.2.settled

/-! ### What holds of the notes -/

/-- Every VM there is has its ID among the used ones. -/
structure Known (s : World × Evictions) : Prop where
  runtime : ∀ x, s.1.runtime.has x = true → x ∈ s.2.used
  bound : ∀ k v, s.1.tables.vmsByPod.get k = some v → v.id ∈ s.2.used

theorem ids_known {s : World × Evictions} (hids : ∀ x ∈ s.1.ids, x ∈ s.2.used) : Known s := by
  constructor
  · intro x hx
    obtain ⟨v, hv⟩ := (GoMap.has_iff _ _).mp hx
    refine hids x (List.mem_append_left _ (List.mem_map.mpr ⟨(x, v), ?_, rfl⟩))
    exact (GoMap.mem_toList _ _ _).mpr hv
  · intro k v hv
    refine hids v.id (List.mem_append_right _ (List.mem_map.mpr ⟨(k, v), ?_, rfl⟩))
    exact (GoMap.mem_toList _ _ _).mpr hv

/-- An ID that was given to a VM which is there no more. -/
structure Dead (s : World × Evictions) (x : VMID) : Prop where
  used : x ∈ s.2.used
  gone : s.1.runtime.has x = false

/-- The notes only grow, and a used ID does not come back. -/
structure Later (s s' : World × Evictions) : Prop where
  used : ∀ x ∈ s.2.used, x ∈ s'.2.used
  settled : ∀ p ∈ s.2.settled, p ∈ s'.2.settled
  gone : ∀ x ∈ s.2.used, s.1.runtime.has x = false → s'.1.runtime.has x = false

theorem Dead.later {s s' : World × Evictions} {x : VMID} (h : Dead s x) (hl : Later s s') :
    Dead s' x := ⟨hl.used x h.used, hl.gone x h.used h.gone⟩

/-- The VM bound to `k`, if there is one, is dead. -/
def BoundDead (s : World × Evictions) (k : Key) : Prop :=
  ∀ u, s.1.tables.vmsByPod.get k = some u → Dead s u.id

/-! ### What a thread knows -/

/-- At the claim of a gone VM the VM is dead, a claimed key is bound to the VM that is to be removed,
and from there on to a dead one. -/
def GonePC.Sound (s : World × Evictions) (role : Role) : GonePC → Prop
  | .flags m | .inspect m _ => m.v.id ∈ s.2.used
  | .recheckInspect m => m.v.id ∈ s.2.used ∧ role = .recheck m.v.id
  | .claim _ v site => site ≠ .removed → Dead s v.id
  | .remove m v => ∀ u, s.1.tables.vmsByPod.get m.key = some u → u.id = v.id
  | .releaseLeases m _ _ | .deletePod m _ _ _ => BoundDead s m.key
  | .untrack m _ _ => (m.key, m.pod.uid) ∈ s.2.settled
  | _ => True

def NodeThread.Sound (s : World × Evictions) : NodeThread → Prop
  | .pod (.gone (.watch g)) => g.pc.Sound s g.role
  | _ => True

section Step
variable {s s' : World × Evictions} {role : Role} {a : Answer} {pc pc' : GonePC}
  {new : List Watch}

theorem BoundDead.later {k : Key} (h : BoundDead s k) (hl : Later s s')
    (hf : Fence.Frozen k s.1.tables s'.1.tables) : BoundDead s' k := by
  intro u hu
  obtain ⟨u₀, hu₀, hid⟩ := hf.vm u hu
  rw [← hid]
  exact (h u₀ hu₀).later hl

/- What a thread knows survives the steps of others: the key it holds is frozen. -/
theorem GonePC.Sound.later (h : pc.Sound s role) (hl : Later s s')
    (hf : ∀ k, pc.holds = some k → Fence.Frozen k s.1.tables s'.1.tables) : pc.Sound s' role := by
  cases pc with
  | flags m => exact hl.used _ h
  | inspect m attempt => exact hl.used _ h
  | recheckInspect m => exact ⟨hl.used _ h.1, h.2⟩
  | claim m v site => exact fun hs => (h hs).later hl
  | remove m v =>
    intro u hu
    obtain ⟨u₀, hu₀, hid⟩ := (hf m.key rfl).vm u hu
    rw [← hid]
    exact h u₀ hu₀
  | releaseLeases m v site => exact BoundDead.later h hl (hf m.key rfl)
  | deletePod m v site attempt => exact BoundDead.later h hl (hf m.key rfl)
  | untrack m v site => exact hl.settled _ h
  | _ => trivial

theorem Role.ret_sound (role : Role) (b : Bool) : (role.ret b).Sound s role := by
  cases role <;> cases b <;> trivial

theorem GonePC.ite_sound {c : Prop} [Decidable c] {p q : GonePC} (hp : p.Sound s role)
    (hq : q.Sound s role) : (if c then p else q).Sound s role := by
  split
  · exact hp
  · exact hq

theorem Evict.evicted_sound (site : Evict) (m : Match) (v : VM) :
    (site.evicted m v).Sound s role := by
  cases site <;> trivial

/- The apiserver answers a delete, other than with a failure, once it does not have the
incarnation. -/
theorem deletePod_answered {w w' : World} {key : Key} {uid : UID} {r : Reply} {d : World.Deleted}
    (h : w.deletePod key uid r = (w', d)) (hd : d ≠ .failed) : w'.apiPods.get key ≠ some uid := by
  unfold World.deletePod at h
  split at h
  · cases h
    exact absurd rfl hd
  · split at h
    next hn =>
      cases h
      rw [hn]
      rintro ⟨⟩
    next owner ho =>
      split at h
      · cases h
        show (w.apiPods.del key).get key ≠ some uid
        rw [GoMap.get_del_self]
        rintro ⟨⟩
      next hne =>
        cases h
        rw [ho]
        rintro ⟨⟩
        exact hne rfl

theorem remove_removes {w w' : World} {id : VMID} {r : Reply} (h : w.remove id r = (w', none)) :
    w'.runtime.has id = false ∧ w'.tables = w.tables := by
  unfold World.remove at h
  cases r with
  | ok =>
    cases h
    refine ⟨?_, rfl⟩
    show (w.runtime.del id).has id = false
    rw [GoMap.has_del]
    simp
  | failed e | failedAfter e | nameTaken => cases h

theorem Watch.step_sound {w w' : World} {n n' : Evictions} (hk : Known (w, n))
    (hs : pc.Sound (w, n) role) (hl : Later (w, n) (w', n'))
    (hset : ∀ m v site i, pc = .deletePod m v site i → w'.apiPods.get m.key ≠ some m.pod.uid →
      (m.key, m.pod.uid) ∈ n'.settled)
    (h : Watch.step w role a pc = some (w', pc', new)) : pc'.Sound (w', n') role := by
  cases pc with
  | lookup id name =>
    obtain ⟨m, hm, h⟩ := Option.map_eq_some_iff.mp h
    cases m with
    | none =>
      cases h
      exact role.ret_sound false
    | some m =>
      cases h
      obtain ⟨-, hv, -⟩ := World.podForVMMatch_some hm
      exact GonePC.ite_sound (hl.used _ (hk.bound _ _ hv)) (role.ret_sound false)
  | flags m =>
    cases h
    exact GonePC.ite_sound (role.ret_sound false) (hl.used _ hs)
  | inspect m attempt =>
    simp only [Watch.step] at h
    split at h
    next hi =>
      cases h
      exact fun _ => Dead.later ⟨hs, World.inspect_notFound hi⟩ hl
    next =>
      cases h
      exact GonePC.ite_sound (hl.used _ hs) trivial
    next =>
      cases h
      exact GonePC.ite_sound (role.ret_sound false) trivial
  | cooldown m inspected =>
    cases h
    exact GonePC.ite_sound trivial fun hne => absurd rfl hne
  | start m inspected =>
    simp only [Watch.step] at h
    split at h <;> cases h
    · trivial
    · exact fun hne => absurd rfl hne
  | reinspect m =>
    simp only [Watch.step] at h
    split at h <;> cases h <;> trivial
  | refresh m fresh =>
    cases h
    trivial
  | liftRead m =>
    simp only [Watch.step] at h
    split at h
    · cases h
      exact role.ret_sound false
    · split at h <;> cases h
      · exact role.ret_sound false
      · exact GonePC.ite_sound trivial trivial
  | liftInspect m v =>
    simp only [Watch.step] at h
    split at h <;> cases h
    · exact role.ret_sound false
    · trivial
    · exact GonePC.ite_sound trivial (role.ret_sound false)
  | retryLater m | markReady m =>
    cases h
    exact role.ret_sound false
  | lift m =>
    cases h
    exact GonePC.ite_sound trivial (role.ret_sound false)
  | claim m v site =>
    simp only [Watch.step] at h
    split at h
    next t hc =>
      -- the key is bound to the VM of the claim
      have hbound : ∀ u, t.vmsByPod.get m.key = some u → u.id = v.id := by
        intro u hu
        obtain ⟨u₀, hu₀, hid⟩ := claimDeletingIncarnation_bound hc
        rw [(Fence.claimDeletingIncarnation_claimed hc).2] at hu
        rw [← hid, Option.some.inj (hu.symm.trans hu₀)]
      cases h
      split
      · exact hbound
      next hne =>
        intro u hu
        have hid := hbound u hu
        rw [hid]
        exact (hs hne).later hl
    next t hc =>
      cases h
      exact GonePC.ite_sound (role.ret_sound false) trivial
  | remove m v =>
    simp only [Watch.step] at h
    split at h
    next w₁ hr =>
      cases h
      obtain ⟨hgone, ht⟩ := remove_removes hr
      intro u hu
      have hu' : w.tables.vmsByPod.get m.key = some u := by
        rw [← ht]
        exact hu
      refine ⟨hl.used _ (hk.bound _ _ hu'), ?_⟩
      rw [hs u hu']
      exact hgone
    next =>
      cases h
      trivial
  | releaseLeases m v site =>
    cases h
    exact BoundDead.later hs hl (.of_eq rfl rfl)
  | deletePod m v site attempt =>
    have ht := Watch.step_tables id h
    simp only [Watch.step] at h
    split at h
    next =>
      cases h
      refine GonePC.ite_sound (BoundDead.later hs hl ?_) (site.evicted_sound m v)
      exact .of_eq (by rw [ht]; rfl) (by rw [ht]; rfl)
    next hne hd =>
      cases h
      exact hset m v site attempt rfl (deletePod_answered hd hne)
  | untrack m v site =>
    cases h
    exact site.evicted_sound m v
  | finish m v site result =>
    cases h
    exact GonePC.ite_sound (role.ret_sound result) trivial
  | check m v site =>
    cases h
    cases site with
    | gone => exact GonePC.ite_sound trivial (role.ret_sound false)
    | recheck => exact role.ret_sound _
    | removed => exact GonePC.ite_sound trivial trivial
  | schedule m v site =>
    cases h
    exact GonePC.ite_sound trivial (role.ret_sound true)
  | sleep =>
    cases role with
    | event => cases h
    | recheck vmID =>
      cases h
      exact GonePC.ite_sound trivial trivial
  | look =>
    cases role with
    | event => cases h
    | recheck vmID =>
      obtain ⟨m, hm, h⟩ := Option.map_eq_some_iff.mp h
      cases m with
      | none =>
        cases h
        trivial
      | some m =>
        cases h
        obtain ⟨-, hv, hid⟩ := World.podForVMMatch_some hm
        exact ⟨hl.used _ (hk.bound _ _ hv), by rw [hid rfl]⟩
  | recheckInspect m =>
    cases role with
    | event => cases h
    | recheck vmID =>
      obtain ⟨hused, hrole⟩ := hs
      cases hrole
      simp only [Watch.step] at h
      split at h
      next hi =>
        cases h
        exact fun _ => Dead.later ⟨hused, World.inspect_notFound hi⟩ hl
      next =>
        cases h
        exact GonePC.ite_sound (fun hne => absurd rfl hne) trivial
      next =>
        cases h
        exact GonePC.ite_sound trivial trivial
  | leave =>
    cases role <;> cases h
    trivial
  | done => cases h

/- The same of any thread of the node, and of those it starts. -/
theorem NodeThread.step_sound {w w' : World} {n n' : Evictions} {t t' : NodeThread}
    {new : List NodeThread} (hk : Known (w, n)) (hs : t.Sound (w, n)) (hl : Later (w, n) (w', n'))
    (hset : ∀ m ∈ t.evicting, w'.apiPods.get m.key ≠ some m.pod.uid →
      (m.key, m.pod.uid) ∈ n'.settled)
    (h : t.step w a = some (w', t', new)) : t'.Sound (w', n') := by
  cases t with
  | pod t =>
    cases t with
    | bring b =>
      simp only [NodeThread.step] at h
      split at h
      · cases h
        trivial
      · obtain ⟨r, -, heq⟩ := Option.map_eq_some_iff.mp h
        cases heq
        trivial
    | gone t =>
      obtain ⟨r, hr, heq⟩ := Option.map_eq_some_iff.mp h
      cases heq
      obtain ⟨q, hq, heq⟩ := Option.map_eq_some_iff.mp hr
      cases heq
      cases t with
      | hibernate hib =>
        simp only [WatchThread.step] at hq
        split at hq
        · cases hq
          trivial
        · obtain ⟨x, -, heq⟩ := Option.map_eq_some_iff.mp hq
          cases heq
          trivial
      | watch g =>
        obtain ⟨x, hx, heq⟩ := Option.map_eq_some_iff.mp hq
        cases heq
        refine Watch.step_sound hk hs hl (fun m v site i hpc hgone => hset m ?_ hgone) hx
        obtain ⟨role, pc⟩ := g
        cases hpc
        rfl
    | tail t | probe key pc =>
      obtain ⟨r, hr, heq⟩ := Option.map_eq_some_iff.mp h
      cases heq
      obtain ⟨q, -, heq⟩ := Option.map_eq_some_iff.mp hr
      cases heq
      trivial
  | snapshot x =>
    cases h
    unfold SnapshotCall.step
    split
    · dsimp only
      split <;> trivial
    · split <;> trivial
    · trivial
    · trivial
    · trivial
  | fork f | delete d =>
    obtain ⟨r, -, heq⟩ := Option.map_eq_some_iff.mp h
    cases heq
    trivial

theorem NodeThread.Begins.sound {t : NodeThread} (h : t.Begins) : t.Sound s := by
  cases t with
  | pod t =>
    cases t with
    | gone t =>
      cases t with
      | hibernate hib => trivial
      | watch g =>
        obtain ⟨vmID, rfl⟩ := h
        trivial
    | _ => trivial
  | snapshot x => trivial
  | fork f => trivial
  | delete d => cases h

theorem NodeThread.entry_sound {t : NodeThread} (h : t.entry = true) : t.Sound s := by
  cases t with
  | pod t =>
    cases t with
    | gone t =>
      cases t with
      | hibernate hib => trivial
      | watch g =>
        obtain ⟨role, pc⟩ := g
        cases role <;> cases pc <;> trivial
    | _ => trivial
  | snapshot x => trivial
  | fork f => trivial
  | delete d => trivial

theorem NodeThread.Sound.later {t : NodeThread} (h : t.Sound s) (hl : Later s s')
    (hf : ∀ k, t.holds = some k → Fence.Frozen k s.1.tables s'.1.tables) : t.Sound s' := by
  cases t with
  | pod t =>
    cases t with
    | gone t =>
      cases t with
      | hibernate hib => trivial
      | watch g => exact GonePC.Sound.later h hl hf
    | _ => trivial
  | snapshot x => trivial
  | fork f => trivial
  | delete d => trivial

end Step

/-! ### Whole runs -/

section Runs
variable {S : Type} [DecidableEq S] {snapshot : LifecycleStatus → S}

/-- The fences keep their holders apart, the notes are complete, and every thread is right in what
it knows. -/
structure EvictInv (c : EvictConfig) : Prop where
  locked : Program.Locked NodeThread.holds (fun s => s.1.fenced) c
  sound : Program.Stable Known (fun s _ t => t.Sound s) c

theorem gone_of_noReuse {c c' : EvictConfig} {e : NodeEvent} (hg : NoReuse snapshot c e)
    (h : (evictions snapshot).next c e = some c') {x : VMID} (hx : x ∈ c.shared.2.used)
    (hgone : c.shared.1.runtime.has x = false) : c'.shared.1.runtime.has x = false := by
  by_contra hhas
  rw [Bool.not_eq_false] at hhas
  obtain ⟨v, hv⟩ := (GoMap.has_iff _ _).mp hhas
  rcases hg c' h (x, v) ((GoMap.mem_toList _ _ _).mpr hv) with hold | hnew
  · rw [hgone] at hold
    cases hold
  · exact hnew hx

theorem later_run {c : EvictConfig} {i : ℕ} {t t' : NodeThread} {a : Answer}
    {s' : World × Evictions} {new : List NodeThread} (hg : NoReuse snapshot c (.run i a))
    (ht : c.threads[i]? = some t) (h : (evictions snapshot).step c.shared i t a = some (s', t', new)) :
    Later c.shared s' ∧ Known s' := by
  have hnext := (evictions snapshot).next_run_eq ht h
  obtain ⟨-, hlog⟩ := Program.record_step _ _ _ h
  have hused : s'.2.used = c.shared.2.used ++ s'.1.ids := by rw [hlog]; rfl
  have hsettled : s'.2.settled = c.shared.2.settled ++ Evictions.answered t s'.1 := by
    rw [hlog]
    rfl
  refine ⟨⟨?_, ?_, fun x hx hgone => gone_of_noReuse hg hnext hx hgone⟩, ids_known ?_⟩
  · intro x hx
    rw [hused]
    exact List.mem_append_left _ hx
  · intro p hp
    rw [hsettled]
    exact List.mem_append_left _ hp
  · intro x hx
    rw [hused]
    exact List.mem_append_right _ hx

theorem later_env {c : EvictConfig} {o : PodAround} {s' : World × Evictions}
    (hg : NoReuse snapshot c (.env o)) (h : (evictions snapshot).env c.shared o = some s') :
    Later c.shared s' ∧ Known s' := by
  have hnext : (evictions snapshot).next c (.env o) = some ⟨s', c.threads⟩ := by
    simp only [Program.next, h, Option.map_some]
  obtain ⟨-, hlog⟩ := Program.record_env _ _ _ h
  have hused : s'.2.used = c.shared.2.used ++ s'.1.ids := by rw [hlog]; rfl
  refine ⟨⟨?_, ?_, fun x hx hgone => gone_of_noReuse hg hnext hx hgone⟩, ids_known ?_⟩
  · intro x hx
    rw [hused]
    exact List.mem_append_left _ hx
  · intro p hp
    rw [hlog]
    exact hp
  · intro x hx
    rw [hused]
    exact List.mem_append_right _ hx

theorem settled_of_log {c : EvictConfig} {i : ℕ} {t t' : NodeThread} {a : Answer}
    {s' : World × Evictions} {new : List NodeThread}
    (h : (evictions snapshot).step c.shared i t a = some (s', t', new)) :
    ∀ m ∈ t.evicting, s'.1.apiPods.get m.key ≠ some m.pod.uid →
      (m.key, m.pod.uid) ∈ s'.2.settled := by
  intro m hm hgone
  obtain ⟨-, hlog⟩ := Program.record_step _ _ _ h
  rw [hlog]
  refine List.mem_append_right _ ?_
  simp only [Evictions.answered, Option.mem_def.mp hm, if_neg hgone, List.mem_singleton]

theorem next_evictInv (c : EvictConfig) (e : NodeEvent) (c' : EvictConfig) (hc : EvictInv c)
    (hg : NoReuse snapshot c e) (h : (evictions snapshot).next c e = some c') : EvictInv c' := by
  refine ⟨nodeThreads_locked snapshot hc.locked h, ?_⟩
  refine (evictions snapshot).next_stable
    (G := fun d f => d = c ∧ NoReuse snapshot d f) ?_ ?_ ?_ c e c' hc.sound ⟨rfl, hg⟩ h
  · intro d t hd hd' he
    exact NodeThread.entry_sound he
  · rintro d i t a s' t' new hd ⟨rfl, hd'⟩ ht hs
    obtain ⟨hl, hk⟩ := later_run hd' ht hs
    obtain ⟨hstep, -⟩ := Program.record_step _ _ _ hs
    have hfrozen : ∀ k, d.shared.1.fenced k → Fence.Frozen k d.shared.1.tables s'.1.tables :=
      fun k hk => NodeThread.step_freezes hstep hk
    refine ⟨hk, ?_, ?_, ?_⟩
    · exact NodeThread.step_sound hd.1 (hd.2 i t ht) hl (settled_of_log hs) hstep
    · intro j u hj hu
      exact (hd.2 j u hu).later hl fun k hk => hfrozen k (hc.locked.held j u k hu hk)
    · intro j u hj hu
      exact (NodeThread.new_begins hstep hu).sound
  · rintro d o s' hd ⟨rfl, hd'⟩ hs
    obtain ⟨hl, hk⟩ := later_env hd' hs
    obtain ⟨henv, -⟩ := Program.record_env _ _ _ hs
    refine ⟨hk, fun j u hu => (hd.2 j u hu).later hl fun k hk => ?_⟩
    exact nodeThreads_env_freezes snapshot henv (hc.locked.held j u k hu hk)

theorem EvictInv.evictsDead {c : EvictConfig} (hc : EvictInv c) : EvictsDead c := by
  constructor
  · intro t ht m hm v hv
    obtain ⟨i, hi⟩ := List.mem_iff_getElem?.mp ht
    have hs := hc.sound.2 i t hi
    cases t with
    | pod t =>
      cases t with
      | gone t =>
        cases t with
        | hibernate hib => cases hm
        | watch g =>
          obtain ⟨role, pc⟩ := g
          cases pc <;> cases hm
          exact (hs v hv).gone
      | _ => cases hm
    | _ => cases hm
  · intro t ht m hm
    obtain ⟨i, hi⟩ := List.mem_iff_getElem?.mp ht
    have hs := hc.sound.2 i t hi
    cases t with
    | pod t =>
      cases t with
      | gone t =>
        cases t with
        | hibernate hib => cases hm
        | watch g =>
          obtain ⟨role, pc⟩ := g
          cases pc <;> cases hm
          exact hs
      | _ => cases hm
    | _ => cases hm

/-- From any world, in every run in which VM IDs are not reused, an eviction meets no live VM and
untracks only what the apiserver has let go of. -/
theorem evictions_spare_live_vms (w : World) (es : List NodeEvent) (c : EvictConfig)
    (hg : (evictions snapshot).machine.Guarded (NoReuse snapshot) ⟨(w, .start w), []⟩ es)
    (h : (evictions snapshot).machine.exec ⟨(w, .start w), []⟩ es = some c) : EvictsDead c := by
  have hinit : EvictInv ⟨(w, .start w), []⟩ := by
    refine ⟨⟨fun i t x ht => (by cases ht), fun i j t u x ht => (by cases ht)⟩,
      ids_known fun x hx => hx, fun i t ht => (by cases ht)⟩
  exact ((evictions snapshot).machine.exec_invariant next_evictInv hinit hg h).evictsDead

end Runs

/- The VM of the sample pod vanishes, and the handler of the event gets as far as `evictPod`. -/
def goneTrace : List NodeEvent :=
  .env (.around (.runtime "vm1" none)) ::
    .start (.pod (.gone (.watch ⟨.event, .lookup "vm1" ""⟩))) :: List.replicate 5 (.run 0 sure)

theorem evictions_spare_live_vms_gone :
    ∃ c, (evictions (id : LifecycleStatus → LifecycleStatus)).machine.exec
        ⟨(sampleWorld, .start sampleWorld), []⟩ goneTrace = some c ∧
      c.threads.map (fun t => (t.evicting.map (·.key))) = [some "ns/a"] ∧
      (c.shared.1.tables.vmsByPod.get "ns/a").map (·.id) = some "vm1" ∧ EvictsDead c := by
  have hrun : ((evictions (id : LifecycleStatus → LifecycleStatus)).machine.exec
      ⟨(sampleWorld, .start sampleWorld), []⟩ goneTrace).map
      (fun c => (c.threads.map (fun t => (t.evicting.map (·.key))),
        (c.shared.1.tables.vmsByPod.get "ns/a").map (·.id))) =
      some ([some "ns/a"], some "vm1") := by decide +kernel
  obtain ⟨c, hc, hv⟩ := Option.map_eq_some_iff.mp hrun
  obtain ⟨hthreads, hbound⟩ := Prod.mk.inj hv
  refine ⟨c, hc, hthreads, hbound, ?_⟩
  exact evictions_spare_live_vms sampleWorld goneTrace c (by decide +kernel) hc

end VkCocoon
