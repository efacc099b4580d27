import VkCocoon.Watcher

/-!
# Hibernate and the VM-gone actions

A hibernate removes its own VM, and the watcher sees that VM go. Between
`startHibernate` and `finishHibernate` no handler and no recheck may restart or
remove the VM, delete the pod, or untrack its key. The flag read at the top of
`handleVMGone` gives this for the handlers that come later; a handler that is past
the read, and every deferred recheck, does not look at the flag again.
-/

namespace VkCocoon
open Lib Tables

/-- The next call is `Start` or `Remove` of VM `x`, the delete of the pod of `k` at the
apiserver, or the untracking of `k`. -/
def GonePC.actsOn (k : Key) (x : VMID) : GonePC → Bool
  | .start m _ => m.v.id == x
  | .remove _ v => v.id == x
  | .deletePod m _ _ _ | .untrack m _ _ => m.key == k
  | _ => false

/-- The key of a handler that has read the flag and may still act or ask for a recheck. -/
def GonePC.acting : GonePC → Option Key
  | .inspect m _ | .cooldown m _ | .start m _ | .claim m _ _ | .remove m _
  | .releaseLeases m _ _ | .deletePod m _ _ _ | .untrack m _ _ | .finish m _ _ _ | .check m _ _
  | .schedule m _ _ => some m.key
  | _ => none

/-- A handler of `k` past the flag read, or a recheck of `x` that has not yet returned. -/
def Watch.armed (k : Key) (x : VMID) (g : Watch) : Bool :=
  g.pc.acting == some k || (g.role == .recheck x && g.pc != .leave && g.pc != .done)

namespace WatchThread

def inFlight (k : Key) : WatchThread → Bool
  | .hibernate h => h.pod.key == k && h.pc.inFlight
  | .watch _ => false

def actsOn (k : Key) (x : VMID) : WatchThread → Bool
  | .hibernate _ => false
  | .watch g => g.pc.actsOn k x

def armed (k : Key) (x : VMID) : WatchThread → Bool
  | .hibernate _ => false
  | .watch g => g.armed k x

/-- The key and the VM of a hibernate that is about to start. -/
def starting : WatchThread → Option (Key × VMID)
  | .hibernate h => if h.pc = .startHibernate then some (h.pod.key, h.v.id) else none
  | .watch _ => none

end WatchThread

/-- No step by a handler or a recheck acts on `k` or `x` while a hibernate of `k` is in flight. -/
def NoGoneAction (k : Key) (x : VMID) (c : WatchConfig) : WatchEvent → Prop
  | .run i _ => ∀ t ∈ c.threads[i]?, t.actsOn k x = true → ∀ u ∈ c.threads, u.inFlight k = false
  | _ => True

/-- The events of the setting: the one hibernate is there from the start, and other goroutines
bind no VMs. -/
def OneHibernate (_ : WatchConfig) : WatchEvent → Prop
  | .start (.hibernate _) => False
  | .env (.table op) => op.isTracking = false
  | _ => True

/-- When a hibernate starts, no handler of its key is past the flag read and no recheck of
its VM is running. -/
def StartsUnwatched (c : WatchConfig) : WatchEvent → Prop
  | .run i _ => ∀ t ∈ c.threads[i]?, ∀ s ∈ t.starting, ∀ u ∈ c.threads, u.armed s.1 s.2 = false
  | _ => True

instance (k : Key) (x : VMID) (c : WatchConfig) :
    (e : WatchEvent) → Decidable (NoGoneAction k x c e)
  | .run i _ => inferInstanceAs (Decidable
      (∀ t ∈ c.threads[i]?, t.actsOn k x = true → ∀ u ∈ c.threads, u.inFlight k = false))
  | .start _ | .env _ => .isTrue trivial

instance (c : WatchConfig) : (e : WatchEvent) → Decidable (OneHibernate c e)
  | .start (.hibernate _) => .isFalse id
  | .env (.table op) => inferInstanceAs (Decidable (op.isTracking = false))
  | .start (.watch _) | .run _ _ | .env (.runtime _ _) | .env (.apiPod _ _) | .env .close =>
    .isTrue trivial

instance (c : WatchConfig) : (e : WatchEvent) → Decidable (StartsUnwatched c e)
  | .run i _ => inferInstanceAs (Decidable
      (∀ t ∈ c.threads[i]?, ∀ s ∈ t.starting, ∀ u ∈ c.threads, u.armed s.1 s.2 = false))
  | .start _ | .env _ => .isTrue trivial

/-- VM `x` is bound to `k` and to nothing else, and `k` to nothing else. -/
def BoundTo (k : Key) (x : VMID) (t : Tables) : Prop :=
  ∀ key u, t.vmsByPod.get key = some u → (key = k ↔ u.id = x)

/-! ### What a thread knows of its match -/

/-- The match is about `k` exactly when it is about VM `x`. -/
def Match.Of (k : Key) (x : VMID) (m : Match) : Prop := m.key = k ↔ m.v.id = x

/-- So is that of a handler past the flag read; in flight (`q`), it is about another key. -/
structure Match.Past (k : Key) (x : VMID) (q : Prop) (m : Match) : Prop where
  of : m.Of k x
  other : q → m.key ≠ k

/-- The same by program point. An eviction past its claim, or one of a gone VM, has the VM of
its key. -/
def GonePC.Own (k : Key) (x : VMID) (q : Prop) (role : Role) : GonePC → Prop
  | .lookup _ _ | .sleep | .look | .leave | .done => True
  | .flags m | .reinspect m | .refresh m _ | .liftRead m | .liftInspect m _ | .retryLater m
  | .lift m | .markReady m => m.Of k x
  -- the recheck loop matches by ID alone
  | .recheckInspect m => m.Of k x ∧ role = .recheck m.v.id
  | .inspect m _ | .cooldown m _ | .start m _ => m.Past k x q
  | .claim m v site => m.Past k x q ∧ (site ≠ .removed → v.id = x → m.key = k)
  | .remove m v | .releaseLeases m v _ | .deletePod m v _ _ | .untrack m v _ | .finish m v _ _
  | .check m v _ | .schedule m v _ => m.Past k x q ∧ (v.id = x → m.key = k)

/-- A recheck of `x` is not in its loop in flight. -/
structure Watch.Own (k : Key) (x : VMID) (q : Prop) (g : Watch) : Prop where
  pc : g.pc.Own k x q g.role
  out : q → g.role = .recheck x → g.pc = .leave ∨ g.pc = .done

section Own
variable {w w' : World} {role : Role} {a : Answer} {pc pc' : GonePC} {new : List Watch}
variable {k : Key} {x : VMID} {q : Prop}

theorem Role.ret_own (role : Role) (b : Bool) : (role.ret b).Own k x q role := by
  cases role <;> cases b <;> trivial

theorem Evict.evicted_own {m : Match} {v : VM} (site : Evict)
    (h : m.Past k x q ∧ (v.id = x → m.key = k)) : (site.evicted m v).Own k x q role := by
  cases site <;> exact h

theorem podForVMMatch_bound {id : VMID} {name : String} {pick : ℕ} {m : Match}
    (hb : BoundTo k x w.tables) (h : w.podForVMMatch id name pick = some (some m)) :
    m.Of k x ∧ (name = "" → m.v.id = id) := by
  obtain ⟨-, hv, hid⟩ := World.podForVMMatch_some h
  exact ⟨hb _ _ hv, hid⟩

theorem claim_bound {t : Tables} {m : Match} {v : VM} (hb : BoundTo k x w.tables)
    (h : w.tables.claimDeletingIncarnation m.key m.pod.uid v.id = (t, true)) (hv : v.id = x) :
    m.key = k := by
  obtain ⟨u, hu, hid⟩ := claimDeletingIncarnation_bound h
  exact (hb m.key u hu).mpr (hid.trans hv)

/- A thread keeps the match it was given, a claim ties its VM to the key, and in flight the
flag read turns a handler of `k` away. -/
theorem step_own (hb : BoundTo k x w.tables) (hq : q → w.tables.hibernating.has k = true)
    (hg : Watch.Own k x q ⟨role, pc⟩)
    (h : Watch.step w role a pc = some (w', pc', new)) : pc'.Own k x q role := by
  have ho : pc.Own k x q role := hg.pc
  cases pc with
  | lookup id name =>
    obtain ⟨m, hm, h⟩ := Option.map_eq_some_iff.mp h
    cases m <;> cases h
    next => exact role.ret_own false
    next m =>
      split
      · exact (podForVMMatch_bound hb hm).1
      · exact role.ret_own false
  | flags m =>
    cases h
    split
    · exact role.ret_own false
    next hc =>
      refine ⟨ho, fun hfly hk => hc ?_⟩
      rw [hk, hq hfly, Bool.true_or]
  | inspect m attempt =>
    simp only [Watch.step] at h
    split at h <;> cases h
    · exact ⟨ho, fun _ => ho.of.mpr⟩
    · split
      · exact ho
      · exact ⟨ho, ho.of.mpr⟩
    · split
      · exact role.ret_own false
      · exact ho
  | cooldown m inspected =>
    cases h
    split
    · exact ho
    · exact ⟨ho, fun hs => absurd rfl hs⟩
  | start m inspected =>
    simp only [Watch.step] at h
    split at h <;> cases h
    · exact ho.of
    · exact ⟨ho, fun hs => absurd rfl hs⟩
  | reinspect m =>
    simp only [Watch.step] at h
    split at h <;> cases h <;> exact ho
  | refresh m fresh =>
    cases h
    exact ho
  | liftRead m =>
    simp only [Watch.step] at h
    split at h
    · cases h
      exact role.ret_own false
    · split at h <;> cases h
      · exact role.ret_own false
      · split <;> exact ho
  | liftInspect m v =>
    simp only [Watch.step] at h
    split at h <;> cases h
    · exact role.ret_own false
    · exact ho
    · split
      · exact ho
      · exact role.ret_own false
  | retryLater m | markReady m =>
    cases h
    exact role.ret_own false
  | lift m =>
    simp only [Watch.step] at h
    generalize w.tables.liftHibernateFailureLocked m.pod = r at h
    obtain ⟨t, lifted, status⟩ := r
    cases h
    split
    · exact ho
    · exact role.ret_own false
  | claim m v site =>
    simp only [Watch.step] at h
    split at h <;> cases h
    next hc => split <;> exact ⟨ho.1, claim_bound hb hc⟩
    next =>
      split
      · exact role.ret_own false
      next hs => exact ⟨ho.1, ho.2 hs⟩
  | remove m v =>
    simp only [Watch.step] at h
    split at h <;> cases h <;> exact ho
  | releaseLeases m v site =>
    cases h
    exact ho
  | deletePod m v site attempt =>
    simp only [Watch.step] at h
    split at h <;> cases h
    · split
      · exact ho
      · exact site.evicted_own ho
    · exact ho
  | untrack m v site =>
    cases h
    exact site.evicted_own ho
  | finish m v site result =>
    cases h
    split
    · exact role.ret_own result
    · exact ho
  | check m v site =>
    cases h
    cases site
    · dsimp only
      split
      · exact ho
      · exact role.ret_own false
    · exact role.ret_own _
    · dsimp only
      split <;> exact ho
  | schedule m v site =>
    simp only [Watch.step] at h
    cases h
    split
    · exact ho
    · exact role.ret_own true
  | sleep =>
    cases role <;> cases h
    split <;> trivial
  | look =>
    cases role with
    | event => cases h
    | recheck vmID =>
      obtain ⟨m, hm, h⟩ := Option.map_eq_some_iff.mp h
      cases m <;> cases h
      · trivial
      · obtain ⟨hof, hid⟩ := podForVMMatch_bound hb hm
        exact ⟨hof, by rw [hid rfl]⟩
  | recheckInspect m =>
    cases role with
    | event => cases h
    | recheck vmID =>
      obtain ⟨hof, hrole⟩ := ho
      have hpast : m.Past k x q := by
        refine ⟨hof, fun hfly hk => ?_⟩
        rcases hg.out hfly (by rw [hrole, hof.mp hk]) with h | h <;> cases h
      simp only [Watch.step] at h
      split at h <;> cases h
      · exact ⟨hpast, fun _ => hof.mpr⟩
      · split
        · exact ⟨hpast, fun hs => absurd rfl hs⟩
        · trivial
      · split <;> trivial
  | leave =>
    cases role <;> cases h
    trivial
  | done => cases h

/- In flight a thread that owns its match is not armed. -/
theorem Watch.Own.unarmed {g : Watch} (hg : g.Own k x q) (hq : q) : g.armed k x = false := by
  have hact : g.pc.acting ≠ some k := by
    have hpc := hg.pc
    cases hp : g.pc <;> rw [hp] at hpc <;> intro hk <;> cases hk
    all_goals first | exact hpc.other hq rfl | exact hpc.1.other hq rfl
  have hrole : (g.role == .recheck x && g.pc != .leave && g.pc != .done) = false := by
    by_cases hr : g.role = .recheck x
    · rcases hg.out hq hr with h | h <;> simp [h]
    · simp [hr]
  unfold Watch.armed
  rw [hrole, Bool.or_false]
  exact beq_false_of_ne hact

theorem Watch.Own.mono {q' : Prop} {g : Watch} (hg : g.Own k x q) (h : q' → q) :
    g.Own k x q' := by
  refine ⟨?_, fun hq => hg.out (h hq)⟩
  have hpc := hg.pc
  cases hp : g.pc <;> rw [hp] at hpc
  all_goals first
    | exact hpc
    | exact ⟨hpc.of, fun hq => hpc.other (h hq)⟩
    | exact ⟨⟨hpc.1.of, fun hq => hpc.1.other (h hq)⟩, hpc.2⟩

/- A thread that is not armed when the hibernate starts is ready for it. -/
theorem Watch.Own.of_unarmed {g : Watch} (hg : g.Own k x q) (hu : g.armed k x = false)
    (q' : Prop) : g.Own k x q' := by
  unfold Watch.armed at hu
  obtain ⟨hact, hrole⟩ := Bool.or_eq_false_iff.mp hu
  have hact : g.pc.acting ≠ some k := ne_of_beq_false hact
  refine ⟨?_, fun _ hr => ?_⟩
  · have hpc := hg.pc
    cases hp : g.pc <;> rw [hp] at hpc hact
    all_goals first
      | exact hpc
      | exact ⟨hpc.of, fun _ hk => hact (congrArg some hk)⟩
      | exact ⟨⟨hpc.1.of, fun _ hk => hact (congrArg some hk)⟩, hpc.2⟩
  · by_cases hl : g.pc = .leave
    · exact Or.inl hl
    · right
      simpa [hr, hl] using hrole

end Own

/-! ### The hibernate thread -/

structure Hib.Own (k : Key) (x : VMID) (h : Hib) : Prop where
  key : h.pod.key = k
  id : h.v.id = x
  vm : ∀ v, h.pc.vm = some v → v.id = x

section Hibernate
variable {w : World} {h : Hib} {r : Reply} {s : World × Hib} {k : Key} {x : VMID}

theorem Hib.step_own (ho : h.Own k x) (hs : h.step w r = some s) : s.2.Own k x := by
  obtain ⟨pc, pre, heq, he⟩ := Hib.step_edge hs
  rw [heq]
  refine ⟨ho.key, ho.id, fun v hv => ?_⟩
  rcases he.vm v hv with hid | hold
  · exact hid.trans ho.id
  · exact ho.vm v hold

end Hibernate

/-! ### The pool -/

section Pool
variable {S : Type} [DecidableEq S] (snapshot : LifecycleStatus → S)
variable {k : Key} {x : VMID}

/- Sections that bind nothing keep the binding; so does binding `x` to `k`. -/
theorem BoundTo.run {t : Tables} {op : TableOp} (hb : BoundTo k x t)
    (htr : ∀ pod v, op.tracks t = some (pod, some v) → (pod.key = k ↔ v.id = x)) :
    BoundTo k x (op.run snapshot t) := by
  intro key u hu
  rcases run_vm snapshot t op key with h | h | ⟨v, m, addr, -, hv, h⟩ | ⟨pod, v, ht, hk, h⟩
  · rw [h] at hu
    exact hb key u hu
  · rw [h] at hu
    cases hu
  · rw [h] at hu
    cases hu
    have hid : (m.apply v).id = v.id := VMMutation_apply_id m v
    exact hid ▸ hb key v hv
  · rw [h] at hu
    cases hu
    rw [← hk]
    exact htr pod u ht

theorem tracks_of_isTracking {t : Tables} {op : TableOp} (h : op.isTracking = false) :
    op.tracks t = none := by
  cases op <;> first | rfl | cases h

theorem BoundTo.runOption {t : Tables} {op : Option TableOp} (hb : BoundTo k x t)
    (hop : ∀ o, op = some o → o.isTracking = false) : BoundTo k x (t.runOption snapshot op) := by
  cases op with
  | none => exact hb
  | some op =>
    refine hb.run snapshot fun pod v ht => ?_
    rw [tracks_of_isTracking (hop op rfl)] at ht
    cases ht

/- A watcher's section neither binds a VM nor is one of `hibernate`. -/
theorem Watch.op_cases {w : World} {role : Role} {a : Answer} {pc : GonePC} {op : TableOp}
    (h : Watch.op w role a pc = some op) :
    op.isTracking = false ∧ (∀ key, op ≠ .startHibernate key) ∧ ∀ key, op ≠ .finishHibernate key := by
  cases pc with
  | schedule m v site =>
    simp only [Watch.op] at h
    split at h <;> cases h
    refine ⟨rfl, ?_, ?_⟩ <;> intro key heq <;> cases heq
  | leave =>
    cases role <;> cases h
    refine ⟨rfl, ?_, ?_⟩ <;> intro key heq <;> cases heq
  | _ =>
    cases h
    all_goals refine ⟨rfl, ?_, ?_⟩ <;> intro key heq <;> cases heq

/-- What each thread knows: the hibernate is thread 0 and its flag says whether it is in
flight. -/
def Knows (k : Key) (x : VMID) (w : World) (i : ℕ) : WatchThread → Prop
  | .hibernate h => h.Own k x ∧ i = 0 ∧ w.tables.hibernating.has k = h.pc.inFlight
  | .watch g => g.Own k x (w.tables.hibernating.has k = true)

theorem Knows.of_has {w w' : World} {i : ℕ} {t : WatchThread} (hk : Knows k x w i t)
    (h : w'.tables.hibernating.has k = w.tables.hibernating.has k) : Knows k x w' i t := by
  cases t with
  | hibernate h' => exact ⟨hk.1, hk.2.1, h.trans hk.2.2⟩
  | watch g =>
    unfold Knows
    rw [h]
    exact hk

section Steps
variable {w w' : World}

theorem watch_stable {g : Watch} {a : Answer} {pc' : GonePC} {new : List Watch}
    (hb : BoundTo k x w.tables) (hg : g.Own k x (w.tables.hibernating.has k = true))
    (h : Watch.step w g.role a g.pc = some (w', pc', new)) :
    BoundTo k x w'.tables ∧ w'.tables.hibernating.has k = w.tables.hibernating.has k ∧
    Watch.Own k x (w.tables.hibernating.has k = true) { g with pc := pc' } ∧
    ∀ u ∈ new, u.Own k x (w.tables.hibernating.has k = true) := by
  have ht := Watch.step_tables (id : LifecycleStatus → LifecycleStatus) h
  refine ⟨?_, ?_, ⟨step_own hb id hg h, ?_⟩, ?_⟩
  · rw [ht]
    exact hb.runOption id fun op hop => (Watch.op_cases hop).1
  · rw [ht]
    cases hop : Watch.op w g.role a g.pc with
    | none => rfl
    | some op =>
      obtain ⟨-, hs, hf⟩ := Watch.op_cases hop
      exact run_hibernating_has id _ op k hs hf
  · -- a recheck of `x` that steps in flight was on its way out
    intro hfly hr
    rcases hg.out hfly hr with hl | hd
    · rw [hl, show g.role = .recheck x from hr] at h
      cases h
      exact Or.inr rfl
    · rw [hd] at h
      cases h
  · intro u hu
    obtain ⟨m, v, site, hpc, rfl⟩ := Watch.step_new h hu
    have ho := hg.pc
    rw [hpc] at ho
    refine ⟨trivial, fun hfly hr => ?_⟩
    have hid : v.id = x := Role.recheck.inj hr
    exact absurd (ho.2 hid) (ho.1.other hfly)

theorem schedule_stable (id : VMID) (hb : BoundTo k x w.tables)
    (hq : w.tables.hibernating.has k = false) :
    BoundTo k x (w.scheduleDeferredRecheck id).1.tables ∧
    (w.scheduleDeferredRecheck id).1.tables.hibernating.has k = false ∧
    ∀ u ∈ (w.scheduleDeferredRecheck id).2,
      u.Own k x ((w.scheduleDeferredRecheck id).1.tables.hibernating.has k = true) := by
  unfold World.scheduleDeferredRecheck
  split
  · exact ⟨hb, hq, fun u hu => by cases hu⟩
  · refine ⟨hb, hq, fun u hu => ?_⟩
    rw [List.mem_singleton.mp hu]
    refine ⟨trivial, fun hfly => ?_⟩
    have hno : w.tables.hibernating.has k = true := hfly
    rw [hq] at hno
    cases hno

theorem Hib.op_cases {h : Hib} {op : TableOp} (hop : h.op = some op) :
    (op.isTracking = false ∨ ∃ msg v, h.pc = .bind msg v ∧ op = .trackPodIncarnation h.pod v) ∧
    ((∃ key, op = .startHibernate key) → h.pc = .startHibernate) ∧
    ((∃ key, op = .finishHibernate key) → h.pc = .finishHibernate) := by
  unfold Hib.op at hop
  cases hpc : h.pc <;> rw [hpc] at hop <;> cases hop
  case bind msg v => exact ⟨Or.inr ⟨msg, v, rfl, rfl⟩, nofun, nofun⟩
  all_goals refine ⟨Or.inl rfl, ?_, ?_⟩ <;> rintro ⟨key, hk⟩ <;> first | rfl | cases hk

/- The flag after a step of the hibernate. -/
theorem Hib.op_hibernating {h : Hib} {t : Tables} (hk : h.pod.key = k)
    (hq : t.hibernating.has k = h.pc.inFlight) (hs : h.pc ≠ .schedule) (hd : h.pc ≠ .done) :
    (t.runOption (id : LifecycleStatus → LifecycleStatus) h.op).hibernating.has k =
      !h.pc.last := by
  unfold Hib.op
  cases hpc : h.pc <;> rw [hpc] at hq
  case startHibernate =>
    simp only [runOption, TableOp.run, startHibernate, hk, GoMap.has_set]
    simp [HibPC.last]
  case finishHibernate =>
    simp only [runOption, TableOp.run, Tables.finishHibernate, hk, GoMap.has_del]
    simp [HibPC.last]
  case schedule => exact absurd hpc hs
  case done => exact absurd hpc hd
  all_goals first
    | exact hq
    | (refine Eq.trans (run_hibernating_has id t _ k ?_ ?_) hq <;> intro key hop <;> cases hop)

theorem hib_stable {h : Hib} {r : Reply} {s : World × Hib} (hb : BoundTo k x w.tables)
    (ho : h.Own k x) (hq : w.tables.hibernating.has k = h.pc.inFlight) (hs : h.step w r = some s) :
    BoundTo k x s.1.tables ∧ s.2.Own k x ∧ s.1.tables.hibernating.has k = s.2.pc.inFlight := by
  have ht := Hib.step_tables (id : LifecycleStatus → LifecycleStatus) hs
  obtain ⟨pc, pre, heq, he⟩ := Hib.step_edge hs
  refine ⟨?_, Hib.step_own ho hs, ?_⟩
  · rw [ht]
    cases hop : h.op with
    | none => exact hb
    | some op =>
      refine hb.run id fun pod v htr => ?_
      rcases (Hib.op_cases hop).1 with hno | ⟨msg, u, hpc, rfl⟩
      · rw [tracks_of_isTracking hno] at htr
        cases htr
      · simp only [TableOp.tracks] at htr
        split at htr <;> cases htr
        exact ⟨fun _ => ho.vm v (by rw [hpc]; rfl), fun _ => ho.key⟩
  · rw [heq, he.inFlight, ht]
    exact Hib.op_hibernating ho.key hq (by rintro hpc; rw [Hib.step, hpc] at hs; cases hs)
      (by rintro hpc; rw [Hib.step, hpc] at hs; cases hs)

end Steps

theorem next_knows (c : WatchConfig) (e : WatchEvent) (c' : WatchConfig)
    (hc : Program.Stable (fun w => BoundTo k x w.tables) (Knows k x) c)
    (hg : OneHibernate c e ∧ StartsUnwatched c e) (h : (watchers snapshot).next c e = some c') :
    Program.Stable (fun w => BoundTo k x w.tables) (Knows k x) c' := by
  refine Program.next_stable (watchers snapshot)
    (G := fun c e => OneHibernate c e ∧ StartsUnwatched c e) ?_ ?_ ?_ c e c' hc hg h
  · -- an event enters at its lookup
    intro c t hc hg he
    cases t with
    | hibernate h => exact hg.1.elim
    | watch g =>
      obtain ⟨role, pc⟩ := g
      cases role <;> cases pc <;> cases he
      exact ⟨trivial, fun _ h => by cases h⟩
  · intro c i t a s' t' new hc hg ht hstep
    have hI : BoundTo k x c.shared.tables := hc.1
    have hJ := hc.2 i t ht
    cases t with
    | watch g =>
      obtain ⟨r, hr, heq⟩ := Option.map_eq_some_iff.mp hstep
      cases heq
      obtain ⟨hb, hhas, hown, hnew⟩ := watch_stable hI hJ hr
      have hsame : ∀ u : Watch, u.Own k x (c.shared.tables.hibernating.has k = true) →
          u.Own k x (r.1.tables.hibernating.has k = true) := by
        intro u hu
        rw [hhas]
        exact hu
      refine ⟨hb, hsame _ hown, fun j u _ hu => (hc.2 j u hu).of_has hhas, fun j u _ hu => ?_⟩
      obtain ⟨g', hg', rfl⟩ := List.mem_map.mp hu
      exact hsame g' (hnew g' hg')
    | hibernate h =>
      obtain ⟨hown, rfl, hflag⟩ := hJ
      simp only [watchers, WatchThread.step] at hstep
      by_cases hpc : h.pc = .schedule
      · rw [if_pos hpc] at hstep
        rw [hpc] at hflag
        obtain ⟨hb, hno, hnew⟩ := schedule_stable h.v.id hI hflag
        cases hstep
        refine ⟨hb, ⟨⟨hown.key, hown.id, fun _ h => by cases h⟩, rfl, hno⟩, fun j u _ hu => ?_,
          fun j u _ hu => ?_⟩
        · exact (hc.2 j u hu).of_has (hno.trans hflag.symm)
        · obtain ⟨g', hg', rfl⟩ := List.mem_map.mp hu
          exact hnew g' hg'
      · rw [if_neg hpc] at hstep
        obtain ⟨r, hr, heq⟩ := Option.map_eq_some_iff.mp hstep
        cases heq
        obtain ⟨hb, hown', hflag'⟩ := hib_stable hI hown hflag hr
        refine ⟨hb, ⟨hown', rfl, hflag'⟩, fun j u hj hu => ?_, fun j u _ hu => by cases hu⟩
        cases u with
        | hibernate h' => exact absurd (hc.2 j _ hu).2.1 hj
        | watch g =>
          have hgown : g.Own k x (c.shared.tables.hibernating.has k = true) := hc.2 j _ hu
          by_cases hstart : h.pc = .startHibernate
          · -- the one moment at which the flag comes up under a running thread
            have hs : (k, x) ∈ (WatchThread.hibernate h).starting := by
              simp [WatchThread.starting, hstart, hown.key, hown.id]
            exact hgown.of_unarmed (hg.2 _ ht _ hs _ (List.mem_of_getElem? hu)) _
          · have hfly : c.shared.tables.hibernating.has k = true := by
              rw [hflag]
              cases hp : h.pc <;> first | rfl | exact absurd hp hstart | exact absurd hp hpc | skip
              rw [Hib.step, hp] at hr
              cases hr
            exact hgown.mono fun _ => hfly
  · -- the surroundings do not bind and do not hibernate
    intro c o s' hc hg he
    have hallow : o.allowed = true := by
      by_contra hno
      simp [watchers, hno] at he
    simp only [watchers, hallow, if_true] at he
    cases he
    have hrest : (c.shared.around snapshot o).tables = c.shared.tables →
        BoundTo k x (c.shared.around snapshot o).tables ∧
        ∀ j u, c.threads[j]? = some u → Knows k x (c.shared.around snapshot o) j u := by
      intro ht
      exact ⟨ht ▸ hc.1, fun j u hu => (hc.2 j u hu).of_has (by rw [ht])⟩
    cases o with
    | table op =>
      have htr : op.isTracking = false := hg.1
      refine ⟨hc.1.run snapshot fun pod v h => ?_, fun j u hu => (hc.2 j u hu).of_has ?_⟩
      · rw [tracks_of_isTracking htr] at h
        cases h
      · refine run_hibernating_has snapshot _ op k ?_ ?_ <;> rintro key rfl <;> cases hallow
    | runtime id v => cases v <;> exact hrest rfl
    | apiPod key uid => cases uid <;> exact hrest rfl
    | close => exact hrest rfl

theorem actsOn_acting {g : Watch} {q : Prop} (hg : g.Own k x q) (h : g.pc.actsOn k x = true) :
    g.pc.acting = some k := by
  have hpc := hg.pc
  cases hp : g.pc <;> rw [hp] at hpc h <;> simp only [GonePC.actsOn, beq_iff_eq] at h
  case start m inspected => exact congrArg some (hpc.of.mpr h)
  case remove m v => exact congrArg some (hpc.2 h)
  case deletePod m v site attempt => exact congrArg some h
  case untrack m v site => exact congrArg some h
  all_goals cases h

theorem noGoneAction_of_knows (c : WatchConfig) (e : WatchEvent)
    (hc : Program.Stable (fun w => BoundTo k x w.tables) (Knows k x) c) : NoGoneAction k x c e := by
  cases e with
  | run i a =>
    intro t ht hacts u hu
    by_contra hfly
    obtain ⟨j, hj⟩ := List.getElem?_of_mem hu
    cases u with
    | watch g => exact hfly rfl
    | hibernate h =>
      have hflag : c.shared.tables.hibernating.has k = true := by
        have hin : h.pc.inFlight = true := by
          simp only [WatchThread.inFlight, Bool.not_eq_false, Bool.and_eq_true] at hfly
          exact hfly.2
        exact (hc.2 j _ hj).2.2.trans hin
      cases t with
      | hibernate h' => cases hacts
      | watch g =>
        have hg : g.Own k x (c.shared.tables.hibernating.has k = true) := hc.2 i _ ht
        have harmed : g.armed k x = true := by
          unfold Watch.armed
          rw [actsOn_acting hg hacts]
          simp
        rw [hg.unarmed hflag] at harmed
        cases harmed
  | start t => trivial
  | env o => trivial

/-- When no handler of the key is past its flag read and no recheck of the VM runs at
`startHibernate`, then until `finishHibernate` no handler and no recheck restarts or removes
the VM, deletes the pod or untracks the key. -/
theorem noGoneAction_during_hibernate (w : World) (h : Hib) (es : List WatchEvent)
    (hpc : h.pc = .startHibernate) (hb : BoundTo h.pod.key h.v.id w.tables)
    (hfree : w.tables.hibernating.has h.pod.key = false)
    (hg : (watchers snapshot).machine.Guarded
      (fun c e => OneHibernate c e ∧ StartsUnwatched c e) ⟨w, [.hibernate h]⟩ es) :
    (watchers snapshot).machine.Guarded (NoGoneAction h.pod.key h.v.id) ⟨w, [.hibernate h]⟩ es := by
  have hinit : Program.Stable (fun w => BoundTo h.pod.key h.v.id w.tables)
      (Knows h.pod.key h.v.id) ⟨w, [.hibernate h]⟩ := by
    refine ⟨hb, fun i t ht => ?_⟩
    rcases i with _ | i
    · cases ht
      refine ⟨⟨rfl, rfl, fun v hv => ?_⟩, rfl, ?_⟩
      · rw [hpc] at hv
        cases hv
      · rw [hfree, hpc]
        rfl
    · cases ht
  exact (watchers snapshot).machine.guarded_of_invariant (next_knows snapshot)
    (fun c e hc _ => noGoneAction_of_knows c e hc) hinit hg

end Pool

theorem sampleWorld_bound : BoundTo "ns/a" "vm1" sampleWorld.tables := by
  intro key u hu
  have hget : (GoMap.empty.set "ns/a" sampleVM).get key = some u := hu
  rw [GoMap.get_set, GoMap.get_empty] at hget
  split at hget
  next hk =>
    cases hget
    exact ⟨fun _ => rfl, fun _ => hk⟩
  next => cases hget

/- An event of `vm1` during the hibernate is put off until its end, when `vm1` is looked at
again. -/
def lateEventTrace : List WatchEvent :=
  [.run 0 sure, .run 0 sure, .run 0 sure, .run 0 sure, .run 0 sure, .run 0 sure,
   .start (.watch ⟨.event, .lookup "vm1" "vk-a"⟩), .run 1 sure, .run 1 sure,
   .run 0 sure, .run 0 sure, .run 0 sure, .run 0 sure, .run 0 sure, .run 2 sure, .run 2 sure]

theorem noGoneAction_late_event :
    ((watchers (id : LifecycleStatus → LifecycleStatus)).machine.exec
      ⟨sampleWorld, [.hibernate sampleHib]⟩ lateEventTrace).map (fun c => c.threads.drop 1) =
      some [.watch ⟨.event, .done⟩, .watch ⟨.recheck "vm1", .leave⟩] ∧
    (watchers (id : LifecycleStatus → LifecycleStatus)).machine.Guarded
      (NoGoneAction "ns/a" "vm1") ⟨sampleWorld, [.hibernate sampleHib]⟩ lateEventTrace :=
  ⟨by decide, noGoneAction_during_hibernate id sampleWorld sampleHib lateEventTrace rfl
    sampleWorld_bound (by decide) (by decide)⟩

/- An event of `vm1` is inconclusive and leaves a recheck. The hibernate removes `vm1`; before
it gets to drop the record, the recheck finds the VM gone and deletes the pod. -/
def straddleTrace : List WatchEvent :=
  [.start (.watch ⟨.event, .lookup "vm1" ""⟩), .run 1 sure, .run 1 sure, .run 1 unsure,
   .run 1 unsure, .run 1 sure,
   .run 0 sure, .run 0 sure, .run 0 sure, .run 0 sure, .run 0 sure, .run 0 sure,
   .run 2 sure, .run 2 sure, .run 2 sure, .run 2 sure, .run 2 sure, .run 2 sure]

theorem goneAction_by_straddling_recheck :
    ¬ ∀ (w : World) (h : Hib) (es : List WatchEvent), h.pc = .startHibernate →
      BoundTo h.pod.key h.v.id w.tables → w.tables.hibernating.has h.pod.key = false →
      (watchers (id : LifecycleStatus → LifecycleStatus)).machine.Guarded OneHibernate
        ⟨w, [.hibernate h]⟩ es →
      (watchers (id : LifecycleStatus → LifecycleStatus)).machine.Guarded
        (NoGoneAction h.pod.key h.v.id) ⟨w, [.hibernate h]⟩ es := by
  intro hall
  have hrun := hall sampleWorld sampleHib straddleTrace rfl sampleWorld_bound (by decide) (by decide)
  exact absurd hrun (by decide)

end VkCocoon
