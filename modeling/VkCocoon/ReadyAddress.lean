import VkCocoon.TailScope

/-!
# Ready promises an address

`markReadyAfterIP` holds ready until the lease of the VM is seen. `markReadyPublished` does
not: `CreatePod` calls it for an adopted VM that owes no work, and the lift of a failed
hibernate calls it after the rollback has cleared the address. Beside the state of the
pod threads stand two notes: whether an address of the bound VM has been seen since it was
bound and since its NIC was re-added, and which VMs have a failed fixup.
-/

namespace VkCocoon
open Lib Tables

structure Seen where
  observed : Bool
  failed : List VMID
deriving DecidableEq, Repr

def TableOp.rollsBackNIC (k : Key) : TableOp → Bool
  | .updateTrackedVM key _ (.rolledBackNIC _) => key == k
  | _ => false

/-- The pod of `markReadyPublished`. -/
def TableOp.directReady : TableOp → Option Pod
  | .setLifecycleState pod .ready _ => some pod
  | _ => none

namespace PodThread

/-- The record of the VM of `k` that a thread resolves the address of. -/
def resolving (k : Key) : PodThread → Option VM
  | .tail ⟨job, .lease seen⟩ => if job.pod.key = k then some seen else none
  | .probe key (.lease seen) => if key = k then some seen else none
  | _ => none

/-- The step finds an address for the NIC of `v`. -/
def observes (k : Key) (w : World) (a : Answer) (t : PodThread) (v : VM) : Bool :=
  (t.resolving k).any fun seen =>
    (w.resolveVMIP seen a.reply).1 != "" && seen.id == v.id && seen.mac == v.mac

/-- The VM whose fixup or SAC pass has just failed. -/
def failing : PodThread → Option VMID
  | .tail ⟨job, .markExhausted _⟩ | .tail ⟨job, .markSAC _⟩ => some job.v.id
  | _ => none

/-- The VM of a tail that has not ended. -/
def owns : PodThread → Option VMID
  | .tail ⟨_, .leave⟩ | .tail ⟨_, .done⟩ => none
  | .tail t => some t.job.v.id
  | _ => none

/-- A tail of `k` between its read of the tracked VM and its write of ready. -/
def awaits (k : Key) : PodThread → Bool
  | .tail ⟨job, .lease _⟩ | .tail ⟨job, .store _ _⟩ | .tail ⟨job, .ready⟩ => job.pod.key == k
  | _ => false

end PodThread

namespace Seen
variable (k : Key)

/-- The first note after a section of the tables: a new VM and a NIC rollback wipe it. -/
def after (s : Seen) (t t' : Tables) (op : Option TableOp) (now : VM → Bool) : Bool :=
  (t'.vmsByPod.get k).any fun v =>
    now v || (s.observed && (t.vmsByPod.get k).any (·.id == v.id) && !op.any (·.rollsBackNIC k))

def log (w : World) (t : PodThread) (a : Answer) (w' : World) (t' : PodThread) (s : Seen) : Seen :=
  ⟨s.after k w.tables w'.tables (t.op w a) (t.observes k w a), t'.failing.toList ++ s.failed⟩

def logEnv (w : World) (o : PodAround) (w' : World) (s : Seen) : Seen :=
  ⟨s.after k w.tables w'.tables o.op fun _ => false, s.failed⟩

end Seen

/-- The incarnation whose intent is ready. -/
def Tables.readyUID (t : Tables) (key : Key) : Option UID :=
  (t.lifecycleIntent.get key).bind fun e => if e.status.state = .ready then some e.uid else none

abbrev SeenConfig := Config (World × Seen) PodThread

/-- The section that an event enters. -/
def eventOp (c : SeenConfig) : PodEvent → Option TableOp
  | .run i a => (c.threads[i]?).bind (·.op c.shared.1 a)
  | .env o => o.op
  | .start _ => none

section ReadyAddress
variable {S : Type} [DecidableEq S] (snapshot : LifecycleStatus → S) (k : Key)

def promises : Program (World × Seen) PodThread Answer PodAround :=
  (podThreads snapshot).record (Seen.log k) (Seen.logEnv k)

/-- The intent of the key becomes ready, from another state or for another incarnation. -/
def MovesToReady (t t' : Tables) : Prop :=
  t'.readyUID k ≠ none ∧ t'.readyUID k ≠ t.readyUID k

/-- A VM is bound, its address has been seen, and its fixup neither runs nor has failed. -/
def Promised (c : SeenConfig) : Prop :=
  ∃ v ∈ c.shared.1.tables.vmsByPod.get k, c.shared.2.observed = true ∧
    v.id ∉ c.shared.2.failed ∧ ∀ t ∈ c.threads, ∀ job ∈ t.fixing, job.v.id ≠ v.id

def ReadyPromised (c : SeenConfig) (e : PodEvent) : Prop :=
  ∀ c' ∈ (promises snapshot k).next c e, MovesToReady k c.shared.1.tables c'.shared.1.tables →
    ∃ pod ∈ (eventOp c e).bind TableOp.readyPod, pod.promises = true → Promised k c

/-- `markReadyPublished` is called for a pod that promises only when the intent is ready. -/
def NoShortcut (c : SeenConfig) (e : PodEvent) : Prop :=
  ∀ op ∈ eventOp c e, ∀ pod ∈ op.directReady, pod.key = k → pod.promises = true →
    c.shared.1.tables.readyUID k = some pod.uid

/-- The NIC of the bound VM. -/
def Tables.boundNIC (t : Tables) : Option (VMID × String) := (t.vmsByPod.get k).map fun v => (v.id, v.mac)

/-- While a tail is between its read of the tracked VM and its write of ready, the key is bound
to the same VM with the same NIC, and its NIC is not rolled back. -/
def SteadyNIC (c : SeenConfig) (e : PodEvent) : Prop :=
  ∀ c' ∈ (promises snapshot k).next c e, ∀ t ∈ c.threads, t.awaits k = true →
    c'.shared.1.tables.boundNIC k = c.shared.1.tables.boundNIC k ∧
      (eventOp c e).any (·.rollsBackNIC k) = false

/-- A tail starts only when its VM has no other tail and no failed fixup. -/
def OneTail (c : SeenConfig) (e : PodEvent) : Prop :=
  ∀ c' ∈ (promises snapshot k).next c e, ∀ u ∈ c'.threads.drop c.threads.length, ∀ x ∈ u.owns,
    (∀ t ∈ c.threads, t.owns ≠ some x) ∧ x ∉ c.shared.2.failed

def Patient (c : SeenConfig) (e : PodEvent) : Prop :=
  NoShortcut k c e ∧ SteadyNIC snapshot k c e ∧ OneTail snapshot k c e

instance (t t' : Tables) : Decidable (MovesToReady k t t') := by
  unfold MovesToReady
  infer_instance

instance (c : SeenConfig) : Decidable (Promised k c) := by
  unfold Promised
  infer_instance

instance (c : SeenConfig) (e : PodEvent) : Decidable (ReadyPromised snapshot k c e) := by
  unfold ReadyPromised
  infer_instance

instance (c : SeenConfig) (e : PodEvent) : Decidable (NoShortcut k c e) := by
  unfold NoShortcut
  infer_instance

instance (c : SeenConfig) (e : PodEvent) : Decidable (SteadyNIC snapshot k c e) := by
  unfold SteadyNIC
  infer_instance

instance (c : SeenConfig) (e : PodEvent) : Decidable (OneTail snapshot k c e) := by
  unfold OneTail
  infer_instance

instance (c : SeenConfig) (e : PodEvent) : Decidable (Patient snapshot k c e) := by
  unfold Patient
  infer_instance

/-! ### The invariant -/

/-- The VM of the job, if it is bound, has shown its address. -/
def Job.Observed (job : Job) (s : World × Seen) : Prop :=
  ∀ v, s.1.tables.vmsByPod.get k = some v → v.id = job.v.id → s.2.observed = true

/-- What the lease wait knows. -/
def TailPC.Resolved (job : Job) (s : World × Seen) : TailPC → Prop
  | .lease seen => seen.id = job.v.id ∧
    ∀ v, s.1.tables.vmsByPod.get k = some v → v.id = job.v.id → v.mac = seen.mac
  | .store _ ip => ip ≠ "" → job.Observed k s
  | .ready => job.Observed k s
  | _ => True

/-- Neither failing nor at the end. -/
def TailPC.sound : TailPC → Bool
  | .markExhausted _ | .failExhausted _ | .markSAC _ | .failSAC _ | .leave | .done => false
  | _ => true

def PodThread.Sound (s : World × Seen) : PodThread → Prop
  | .tail t => (t.pc.sound = true → t.job.v.id ∉ s.2.failed) ∧
    (t.job.pod.key = k → t.pc.Resolved k t.job s)
  | _ => True

variable {snapshot k} {w w' : World} {a : Answer} {job : Job} {pc pc' : TailPC} {s s' : World × Seen}

/-! ### The lease wait -/

theorem bound_of_steady {t t' : Tables} {v' : VM} (hnic : t'.boundNIC k = t.boundNIC k)
    (hv' : t'.vmsByPod.get k = some v') :
    ∃ v, t.vmsByPod.get k = some v ∧ v.id = v'.id ∧ v.mac = v'.mac := by
  unfold boundNIC at hnic
  rw [hv', Option.map_some] at hnic
  obtain ⟨v, hv, heq⟩ := Option.map_eq_some_iff.mp hnic.symm
  obtain ⟨hid, hmac⟩ := Prod.mk.inj heq
  exact ⟨v, hv, hid, hmac⟩

theorem after_of_steady {s : Seen} {t t' : Tables} {op : Option TableOp} {now : VM → Bool} {v' : VM}
    (hnic : t'.boundNIC k = t.boundNIC k) (hop : op.any (·.rollsBackNIC k) = false)
    (hobs : s.observed = true) (hv' : t'.vmsByPod.get k = some v') :
    s.after k t t' op now = true := by
  obtain ⟨v, hv, hid, -⟩ := bound_of_steady hnic hv'
  unfold Seen.after
  rw [hv', hv, hobs, hop]
  simp [hid]

/- A tail that stands by while the NIC is steady. -/
theorem TailPC.Resolved.steady {op : Option TableOp} {now : VM → Bool} (h : pc.Resolved k job s)
    (hnic : s'.1.tables.boundNIC k = s.1.tables.boundNIC k)
    (hop : op.any (·.rollsBackNIC k) = false)
    (hseen : s'.2.observed = s.2.after k s.1.tables s'.1.tables op now) :
    pc.Resolved k job s' := by
  have hobs : job.Observed k s → job.Observed k s' := by
    intro hold v' hv' hid
    obtain ⟨v, hv, hv₁, -⟩ := bound_of_steady hnic hv'
    rw [hseen]
    exact after_of_steady hnic hop (hold v hv (hv₁.trans hid)) hv'
  cases pc with
  | lease seen =>
    refine ⟨h.1, fun v' hv' hid => ?_⟩
    obtain ⟨v, hv, hv₁, hv₂⟩ := bound_of_steady hnic hv'
    rw [← hv₂]
    exact h.2 v hv (hv₁.trans hid)
  | store seen ip => exact fun hip => hobs (h hip)
  | ready => exact hobs h
  | _ => trivial

theorem unlessCut_resolved (h : pc.Resolved k job s) :
    (Job.unlessCut w a pc).Resolved k job s := by
  unfold Job.unlessCut
  split
  · trivial
  · exact h

theorem resolved_resolved {ip : String} (h : ip ≠ "" → job.Observed k s) :
    (Job.resolved w a ip).Resolved k job s := by
  refine unlessCut_resolved ?_
  split
  next hip => exact h (by simpa using hip)
  next => split <;> trivial

/- The step in which a tail finds an address. -/
theorem observed_of_lease {seen : VM} {note : Seen} {t' : PodThread}
    (hkey : job.pod.key = k) (hr : (TailPC.lease seen).Resolved k job (w, note))
    (hip : (w.resolveVMIP seen a.reply).1 ≠ "") :
    job.Observed k (w, note.log k w (.tail ⟨job, .lease seen⟩) a w t') := by
  intro v hv hid
  have hnow : PodThread.observes k w a (.tail ⟨job, .lease seen⟩) v = true := by
    simp [PodThread.observes, PodThread.resolving, hkey, hip, hr.1, hid, hr.2 v hv hid]
  have hv : w.tables.vmsByPod.get k = some v := hv
  simp only [Seen.log, Seen.after, hv, Option.any_some, hnow, Bool.true_or]

theorem step_resolved {note : Seen} (h : job.step w a pc = some (w', pc')) (hkey : job.pod.key = k)
    (hr : pc.Resolved k job (w, note))
    (hsteady : (PodThread.tail ⟨job, pc⟩).awaits k = true →
      w'.tables.boundNIC k = w.tables.boundNIC k ∧ (job.op pc).any (·.rollsBackNIC k) = false) :
    pc'.Resolved k job (w', note.log k w (.tail ⟨job, pc⟩) a w' (.tail ⟨job, pc'⟩)) := by
  cases pc with
  | exec attempt errs =>
    simp only [Job.step] at h
    split at h <;> cases h
    · exact unlessCut_resolved trivial
    · refine unlessCut_resolved ?_
      split <;> trivial
  | markDone =>
    cases h
    unfold Job.readyWait
    split <;> trivial
  | sac =>
    simp only [Job.step] at h
    split at h <;> cases h
    · split <;> trivial
    · trivial
  | check =>
    cases h
    split <;> trivial
  | lookup =>
    simp only [Job.step] at h
    split at h <;> cases h
    next seen hseen =>
      rw [hkey] at hseen
      split
      next hid =>
        refine ⟨hid, fun v hv _ => ?_⟩
        rw [hseen] at hv
        cases hv
        rfl
      next => exact unlessCut_resolved trivial
    next => exact unlessCut_resolved trivial
  | lease seen =>
    simp only [Job.step] at h
    split at h
    next ip heq =>
      cases h
      exact fun hip => observed_of_lease hkey hr (by rw [heq]; exact hip)
    next ip heq =>
      cases h
      exact resolved_resolved fun hip => observed_of_lease hkey hr (by rw [heq]; exact hip)
  | store seen ip =>
    cases h
    obtain ⟨hnic, hop⟩ := hsteady (by simp [PodThread.awaits, hkey])
    refine resolved_resolved fun hip => ?_
    have hip : ip ≠ "" := by
      intro hempty
      rw [hempty] at hip
      simp at hip
    have hready : TailPC.ready.Resolved k job (w, note) := hr hip
    exact hready.steady hnic hop rfl
  | done => cases h
  | _ =>
    cases h
    trivial

/-! ### The tail of a VM -/

theorem step_sound (h : job.step w a pc = some (w', pc')) (hs : pc'.sound = true) :
    pc.sound = true := by
  cases pc with
  | markExhausted | failExhausted | markSAC | failSAC | leave =>
    cases h
    cases hs
  | done => cases h
  | _ => rfl

theorem owns_of_step {t t' : PodThread} {new : List PodThread} {x : VMID}
    (h : t.step w a = some (w', t', new)) (hx : t'.owns = some x) : t.owns = some x := by
  cases t with
  | tail tl =>
    obtain ⟨job, pc⟩ := tl
    obtain ⟨⟨w₁, pc'⟩, hr, heq⟩ := Option.map_eq_some_iff.mp h
    cases heq
    have hid : some job.v.id = some x := by
      cases pc' with
      | leave | done => cases hx
      | _ => exact hx
    cases pc with
    | leave =>
      cases hr
      cases hx
    | done => cases hr
    | _ => exact hid
  | _ =>
    obtain ⟨r, -, heq⟩ := Option.map_eq_some_iff.mp h
    cases heq
    cases hx

/- A thread that starts others is no tail, and the tails it starts come one at a time. -/
theorem new_of_step {t t' u : PodThread} {new : List PodThread}
    (h : t.step w a = some (w', t', new)) (hu : u ∈ new) :
    Bring.Starts u ∧ t'.failing = none ∧ ∀ x, u.owns = some x → new = [u] := by
  cases t with
  | gone t =>
    obtain ⟨r, -, heq⟩ := Option.map_eq_some_iff.mp h
    cases heq
    obtain ⟨g, -, rfl⟩ := List.mem_map.mp hu
    exact ⟨trivial, rfl, fun x hx => by cases hx⟩
  | bring b =>
    obtain ⟨r, hr, heq⟩ := Option.map_eq_some_iff.mp h
    cases heq
    obtain ⟨hstart, hone⟩ := Bring.step_new hr hu
    exact ⟨hstart, rfl, fun _ _ => hone⟩
  | _ =>
    obtain ⟨r, -, heq⟩ := Option.map_eq_some_iff.mp h
    cases heq
    cases hu

theorem owns_of_failing {t : PodThread} {x : VMID} (h : t.failing = some x) : t.owns = some x := by
  cases t with
  | tail tl =>
    obtain ⟨job, pc⟩ := tl
    cases pc with
    | markExhausted | markSAC => exact h
    | _ => cases h
  | _ => cases h

theorem owns_of_sound {t : Tail} (h : t.pc.sound = true) :
    (PodThread.tail t).owns = some t.job.v.id := by
  obtain ⟨job, pc⟩ := t
  cases pc with
  | markExhausted | failExhausted | markSAC | failSAC | leave | done => cases h
  | _ => rfl

theorem promises_step {i : ℕ} {t t' : PodThread} {new : List PodThread}
    (h : (promises snapshot k).step s i t a = some (s', t', new)) :
    t.step s.1 a = some (s'.1, t', new) ∧ s'.2 = s.2.log k s.1 t a s'.1 t' := by
  obtain ⟨⟨w₁, t₁, new₁⟩, hr, heq⟩ := Option.map_eq_some_iff.mp h
  cases heq
  exact ⟨hr, rfl⟩

/-! ### Runs -/

/-- The tails of one VM are apart, and each knows what its lease wait needs. -/
structure Settled (k : Key) (c : SeenConfig) : Prop where
  apart : Program.Apart PodThread.owns c
  sound : Program.Stable (fun _ => True) (fun s _ (t : PodThread) => t.Sound k s) c

theorem next_settled_apart (c : SeenConfig) (e : PodEvent) (c' : SeenConfig)
    (hc : Program.Apart PodThread.owns c) (hg : OneTail snapshot k c e)
    (h : (promises snapshot k).next c e = some c') : Program.Apart PodThread.owns c' := by
  refine Program.next_apart (promises snapshot k) ?_ ?_ hc h fun u hu x hx => (hg c' h u hu x hx).1
  · intro s t he
    cases t with
    | tail tl => cases he
    | _ => rfl
  · intro s i t a s' t' new hs
    obtain ⟨hstep, -⟩ := promises_step hs
    exact ⟨fun x hx => owns_of_step hstep hx, fun u hu => (new_of_step hstep hu).2.2⟩

/- A tail that stands by while another thread, of no tail of its VM, steps. -/
theorem PodThread.Sound.standsBy {t : PodThread} {op : Option TableOp} {now : VM → Bool}
    (new : Option VMID) (h : t.Sound k s) (hfailed : s'.2.failed = new.toList ++ s.2.failed)
    (hnew : ∀ x, new = some x → t.owns ≠ some x)
    (hsteady : t.awaits k = true → s'.1.tables.boundNIC k = s.1.tables.boundNIC k ∧
      op.any (·.rollsBackNIC k) = false)
    (hseen : s'.2.observed = s.2.after k s.1.tables s'.1.tables op now) : t.Sound k s' := by
  cases t with
  | tail tl =>
    obtain ⟨job, pc⟩ := tl
    refine ⟨fun hsound hmem => ?_, fun hkey => ?_⟩
    · rw [hfailed] at hmem
      rcases List.mem_append.mp hmem with hm | hm
      · exact hnew _ (Option.mem_toList.mp hm) (owns_of_sound hsound)
      · exact h.1 hsound hm
    · have hr := h.2 hkey
      cases pc with
      | lease | store | ready =>
        obtain ⟨hnic, hop⟩ := hsteady (by simpa [PodThread.awaits] using hkey)
        exact hr.steady hnic hop hseen
      | _ => trivial
  | _ => trivial

theorem starts_sound {u : PodThread} (hu : Bring.Starts u)
    (hfailed : ∀ x, u.owns = some x → x ∉ s.2.failed) : u.Sound k s := by
  cases u with
  | tail tl =>
    obtain ⟨job, pc⟩ := tl
    refine ⟨fun hsound => hfailed _ (owns_of_sound hsound), fun _ => ?_⟩
    rcases hu with hpc | hpc | hpc <;> simp only at hpc <;> subst hpc
    · unfold Job.postClone
      split <;> trivial
    · unfold Job.readyWait
      split <;> trivial
    · trivial
  | _ => trivial

/- One step of a thread, for the thread itself. -/
theorem step_knows {t t' : PodThread} {new : List PodThread} {note : Seen}
    (h : t.step w a = some (w', t', new)) (ht : t.Sound k (w, note))
    (hsteady : t.awaits k = true →
      w'.tables.boundNIC k = w.tables.boundNIC k ∧ (t.op w a).any (·.rollsBackNIC k) = false) :
    t'.Sound k (w', note.log k w t a w' t') := by
  cases t with
  | tail tl =>
    obtain ⟨job, pc⟩ := tl
    obtain ⟨⟨w₁, pc'⟩, hr, heq⟩ := Option.map_eq_some_iff.mp h
    cases heq
    refine ⟨fun hsound hmem => ?_, fun hkey => step_resolved hr hkey (ht.2 hkey) hsteady⟩
    have hnone : (PodThread.tail ⟨job, pc'⟩).failing = none := by
      cases pc' with
      | markExhausted | markSAC => cases hsound
      | _ => rfl
    have hmem : job.v.id ∈ (PodThread.tail ⟨job, pc'⟩).failing.toList ++ note.failed := hmem
    rw [hnone] at hmem
    exact ht.1 (step_sound hr hsound) hmem
  | _ =>
    obtain ⟨r, -, heq⟩ := Option.map_eq_some_iff.mp h
    cases heq
    trivial

theorem next_settled (c : SeenConfig) (e : PodEvent) (c' : SeenConfig) (hc : Settled k c)
    (hg : Patient snapshot k c e) (h : (promises snapshot k).next c e = some c') : Settled k c' := by
  refine ⟨next_settled_apart c e c' hc.apart hg.2.2 h, ?_⟩
  refine Program.next_stable (promises snapshot k)
    (G := fun c e => Patient snapshot k c e ∧ Program.Apart PodThread.owns c) ?_ ?_ ?_
    c e c' hc.sound ⟨hg, hc.apart⟩ h
  · intro c t _ _ he
    cases t with
    | tail tl => cases he
    | _ => trivial
  · intro c i t a s' t' new hc hg ht hs
    obtain ⟨⟨-, hsteady, hone⟩, hapart⟩ := hg
    obtain ⟨hstep, hlog⟩ := promises_step hs
    have hn := Program.next_run_eq (promises snapshot k) ht hs
    have hop : eventOp c (.run i a) = t.op c.shared.1 a := by simp only [eventOp, ht, Option.bind_some]
    have hstead : ∀ u ∈ c.threads, u.awaits k = true →
        s'.1.tables.boundNIC k = c.shared.1.tables.boundNIC k ∧
        (t.op c.shared.1 a).any (·.rollsBackNIC k) = false := by
      intro u hu hawait
      have hboth := hsteady _ hn u hu hawait
      rw [hop] at hboth
      exact hboth
    refine ⟨trivial, ?_, fun j u hj hu => ?_, fun j u _ hu => ?_⟩
    · have hown := step_knows hstep (hc.2 i t ht) (hstead t (List.mem_of_getElem? ht))
      rw [← hlog] at hown
      exact hown
    · refine (hc.2 j u hu).standsBy t'.failing (congrArg Seen.failed hlog) (fun x hx hux => hj ?_)
        (hstead u (List.mem_of_getElem? hu)) (congrArg Seen.observed hlog)
      exact hapart j i u t x hu ht hux (owns_of_step hstep (owns_of_failing hx))
    · obtain ⟨hstart, hnone, -⟩ := new_of_step hstep hu
      refine starts_sound hstart fun x hx => ?_
      have hfresh := (hone _ hn u (by rw [Program.drop_moved]; exact hu) x hx).2
      rw [hlog]
      simpa only [Seen.log, hnone, Option.toList_none, List.nil_append] using hfresh
  · intro c o s' hc hg ho
    obtain ⟨⟨-, hsteady, -⟩, -⟩ := hg
    obtain ⟨w', hw, rfl⟩ := Option.map_eq_some_iff.mp ho
    have hn : (promises snapshot k).next c (.env o) =
        some ⟨(w', c.shared.2.logEnv k c.shared.1 o w'), c.threads⟩ := by
      simp only [Program.next, ho, Option.map_some]
    refine ⟨trivial, fun j u hu => ?_⟩
    exact (hc.2 j u hu).standsBy none rfl (fun _ hx => by cases hx) (hsteady _ hn u (List.mem_of_getElem? hu)) rfl

/-! ### Where ready comes from -/

theorem next_tables {c c' : SeenConfig} {e : PodEvent} (h : (promises snapshot k).next c e = some c') :
    c'.shared.1.tables = c.shared.1.tables.runOption snapshot (eventOp c e) := by
  cases e with
  | start t =>
    obtain ⟨-, rfl⟩ := Program.next_start _ h
    rfl
  | run i a =>
    obtain ⟨t, s', t', new, ht, hs, rfl⟩ := Program.next_run _ h
    simp only [eventOp, ht, Option.bind_some]
    exact PodThread.step_tables snapshot (promises_step hs).1
  | env o =>
    obtain ⟨s', hs, rfl⟩ := Program.next_env _ h
    obtain ⟨w', hw, rfl⟩ := Option.map_eq_some_iff.mp hs
    simp only [podThreads] at hw
    split at hw <;> cases hw
    exact World.podAround_tables snapshot _ o

/- The intent becomes ready through `markReadyPublished`, or through the lease wait of the VM
that is bound. A republication finds it ready. -/
theorem readyPod_of_moves {t : Tables} {op : TableOp} (h : MovesToReady k t (op.run snapshot t)) :
    ∃ pod, op.readyPod = some pod ∧ pod.key = k ∧ t.readyUID k ≠ some pod.uid ∧
      (op.directReady = some pod ∨ ∃ id message v,
        op = .setLifecycleStateForWake pod id .ready message ∧ t.vmsByPod.get k = some v ∧
        v.id = id) := by
  obtain ⟨hsome, hne⟩ := h
  rcases run_intent snapshot t op k with ⟨pod, state, message, hw, rfl, -, -, hget⟩ | ⟨-, hkept⟩
  · have hready : state = .ready := by
      by_contra hstate
      exact hsome (by simp [readyUID, hget, hstate])
    subst hready
    have huid : (op.run snapshot t).readyUID pod.key = some pod.uid := by simp [readyUID, hget]
    rw [huid] at hne
    cases op with
    | setLifecycleState p state message =>
      cases hw
      exact ⟨pod, rfl, rfl, fun heq => hne heq.symm, Or.inl rfl⟩
    | setLifecycleStateForWake p id state message =>
      simp only [TableOp.lifecycleWrite] at hw
      split at hw
      next hc =>
        cases hw
        rw [Bool.and_eq_true] at hc
        obtain ⟨v, hv, hid⟩ := (Option.any_eq_true _ _).mp hc.2
        exact ⟨pod, rfl, rfl, fun heq => hne heq.symm,
          Or.inr ⟨id, message, v, rfl, hv, by simpa using hid⟩⟩
      next => cases hw
    | liftHibernateFailure p =>
      obtain ⟨v, -, heq⟩ := Option.map_eq_some_iff.mp hw
      cases heq
    | republishLifecycleOnGenerationBump p =>
      obtain ⟨cur, hcur, heq⟩ := Option.bind_eq_some_iff.mp hw
      split at heq
      next => cases heq
      next hc =>
        obtain ⟨rfl, hstate, -⟩ : p = pod ∧ cur.status.state = .ready ∧ _ := by
          simpa using heq
        have hcuid : cur.uid = p.uid := by
          by_contra hcu
          exact hc (by simp [hcu])
        exact absurd (by simp [readyUID, hcur, hstate, hcuid]) hne
    | _ => cases hw
  · have hsame : (op.run snapshot t).readyUID k = t.readyUID k ∨
        (op.run snapshot t).readyUID k = none := by
      rcases hkept with heq | heq | ⟨e, sent, he, -, -, heq⟩
      · exact Or.inl (by simp only [readyUID, heq])
      · exact Or.inr (by simp only [readyUID, heq, Option.bind_none])
      · exact Or.inl (by simp only [readyUID, heq, he, Option.bind_some])
    exact (hsame.elim (fun heq => hne heq) fun heq => hsome heq).elim

/- Only a tail at the end of its lease wait writes ready for a VM. -/
theorem ready_of_op {t : PodThread} {pod : Pod} {id : VMID} {message : String}
    (h : t.op w a = some (.setLifecycleStateForWake pod id .ready message)) :
    ∃ job, t = .tail ⟨job, .ready⟩ ∧ job.pod = pod ∧ job.v.id = id := by
  cases t with
  | tail tl =>
    obtain ⟨job, pc⟩ := tl
    cases pc with
    | ready =>
      cases h
      exact ⟨job, rfl, rfl, rfl⟩
    | leave =>
      simp only [PodThread.op, Job.op] at h
      split at h <;> cases h
    | _ => cases h
  | gone t =>
    cases t with
    | hibernate hib =>
      simp only [PodThread.op, WatchThread.op, Hib.op] at h
      split at h
      · split at h <;> cases h
      · split at h <;> cases h
    | watch g =>
      obtain ⟨role, pc⟩ := g
      cases pc with
      | schedule =>
        simp only [PodThread.op, WatchThread.op, Watch.op] at h
        split at h <;> cases h
      | leave =>
        simp only [PodThread.op, WatchThread.op, Watch.op] at h
        split at h <;> cases h
      | _ => cases h
  | bring b =>
    obtain ⟨p, launched, nic, pc⟩ := b
    cases pc <;> cases h
  | probe key pc => cases pc <;> cases h

theorem owns_of_fixing {t : PodThread} (h : job ∈ t.fixing) : t.owns = some job.v.id := by
  cases t with
  | tail tl =>
    obtain ⟨j, pc⟩ := tl
    cases pc <;> cases h <;> rfl
  | _ => cases h

theorem promised_of_ready {c : SeenConfig} {i : ℕ} {v : VM} (hc : Settled k c)
    (ht : c.threads[i]? = some (.tail ⟨job, .ready⟩)) (hkey : job.pod.key = k)
    (hv : c.shared.1.tables.vmsByPod.get k = some v) (hid : v.id = job.v.id) : Promised k c := by
  have hsound := hc.sound.2 i _ ht
  refine ⟨v, hv, hsound.2 hkey v hv hid, ?_, fun t hm j hj heq => ?_⟩
  · rw [hid]
    exact hsound.1 rfl
  · -- the fixup would be a second tail of the VM
    obtain ⟨n, hn⟩ := List.mem_iff_getElem?.mp hm
    have howns : t.owns = some job.v.id := by rw [owns_of_fixing hj, heq, hid]
    have hsame : n = i := hc.apart n i t _ job.v.id hn ht howns rfl
    subst hsame
    rw [ht] at hn
    cases hn
    cases hj

theorem readyPromised_of_settled (c : SeenConfig) (e : PodEvent) (hc : Settled k c)
    (hg : Patient snapshot k c e) : ReadyPromised snapshot k c e := by
  intro c' hn hmove
  rw [next_tables hn] at hmove
  cases hop : eventOp c e with
  | none =>
    rw [hop] at hmove
    exact absurd rfl hmove.2
  | some op =>
    rw [hop] at hmove
    obtain ⟨pod, hready, hkey, hnot, hhow⟩ := readyPod_of_moves hmove
    refine ⟨pod, by rw [Option.bind_some]; exact hready, fun hprom => ?_⟩
    rcases hhow with hdirect | ⟨id, message, v, rfl, hv, hid⟩
    · exact absurd (hg.1 op hop pod hdirect hkey hprom) hnot
    · cases e with
      | start t => cases hop
      | run i a =>
        obtain ⟨t, ht, hto⟩ := Option.bind_eq_some_iff.mp hop
        obtain ⟨job, rfl, rfl, rfl⟩ := ready_of_op hto
        exact promised_of_ready hc ht hkey hv hid
      | env o =>
        -- the surroundings write ready for other pods only
        obtain ⟨s', hs, -⟩ := Program.next_env _ hn
        obtain ⟨w', hw, -⟩ := Option.map_eq_some_iff.mp hs
        simp only [podThreads] at hw
        split at hw
        next hallow =>
          cases o with
          | lease mac ip => cases hop
          | around o =>
            cases o with
            | table op =>
              cases hop
              simp [PodAround.allowed, TableOp.readyPod, hprom] at hallow
            | _ => cases hop
        next => cases hw

/-- The notes decide nothing: the runs are those of the pod threads. -/
theorem promises_exec (w : World) (es : List PodEvent) :
    ((promises snapshot k).machine.exec ⟨(w, ⟨false, []⟩), []⟩ es).map Program.erase =
      (podThreads snapshot).machine.exec ⟨w, []⟩ es :=
  Program.record_exec _ _ _ _ _

/-- When ready is left to the lease wait, the NIC of a VM is steady during it, and a VM has one tail
and no failed one before it, ready promises an address. -/
theorem ready_promises_address (w : World) (es : List PodEvent)
    (hg : (promises snapshot k).machine.Guarded (Patient snapshot k) ⟨(w, ⟨false, []⟩), []⟩ es) :
    (promises snapshot k).machine.Guarded (ReadyPromised snapshot k) ⟨(w, ⟨false, []⟩), []⟩ es := by
  have hinit : Settled k ⟨(w, ⟨false, []⟩), []⟩ := by
    refine ⟨?_, trivial, fun i t ht => by cases ht⟩
    intro i j t u x ht
    cases ht
  exact Machine.guarded_of_invariant _ next_settled readyPromised_of_settled hinit hg

end ReadyAddress

/- A Windows pod whose VM has a lease. -/
def windowsPod : Pod := { samplePod with spec := ⟨"vk-a", true, .windows, .cloudHypervisor⟩ }

def windowsWorld : World :=
  { sampleWorld with
    tables := Tables.new.trackPodLocked windowsPod (some sampleVM)
    leases := GoMap.empty.set sampleVM.mac "10.0.0.5" }

/- A probe sees the address. A hibernate drops the NIC, fails to save and rolls back. -/
def rolledBackTrace : List PodEvent :=
  .start (.probe "ns/a" .lookup) :: (List.replicate 3 (.run 0 sure) ++
    call { windowsPod with ref := 1, hibernate := true } sampleVM .backoff ::
    (List.replicate 5 (.run 1 sure) ++ List.replicate 4 (.run 2 sure) ++ [.run 2 unsure] ++
      List.replicate 9 (.run 2 sure)))

/- The request is taken back, and the update lifts the failure. -/
def liftTrace : List PodEvent :=
  call { windowsPod with ref := 2 } sampleVM .backoff :: List.replicate 9 (.run 3 sure)

theorem ready_promises_address_cloned :
    (∃ c, (promises (id : LifecycleStatus → LifecycleStatus) "ns/a").machine.exec
        ⟨(freshWorld, ⟨false, []⟩), []⟩ (createTrace ++ readyTrace 1) = some c ∧
      c.shared.1.tables.readyUID "ns/a" = some "u" ∧ c.shared.2.observed = true) ∧
    (promises (id : LifecycleStatus → LifecycleStatus) "ns/a").machine.Guarded
      (ReadyPromised id "ns/a") ⟨(freshWorld, ⟨false, []⟩), []⟩ (createTrace ++ readyTrace 1) := by
  refine ⟨?_, ready_promises_address freshWorld (createTrace ++ readyTrace 1) (by decide +kernel)⟩
  have hrun : ((promises (id : LifecycleStatus → LifecycleStatus) "ns/a").machine.exec
      ⟨(freshWorld, ⟨false, []⟩), []⟩ (createTrace ++ readyTrace 1)).map
      (fun c => (c.shared.1.tables.readyUID "ns/a", c.shared.2.observed)) =
      some (some "u", true) := by decide +kernel
  obtain ⟨c, hc, hv⟩ := Option.map_eq_some_iff.mp hrun
  exact ⟨c, hc, Prod.mk.inj hv⟩

theorem ready_without_address_after_lift :
    ¬ ∀ (w : World) (es : List PodEvent),
      (promises (id : LifecycleStatus → LifecycleStatus) "ns/a").machine.Guarded
        (ReadyPromised id "ns/a") ⟨(w, ⟨false, []⟩), []⟩ es := by
  intro hall
  exact absurd (hall windowsWorld (rolledBackTrace ++ liftTrace)) (by decide +kernel)

end VkCocoon
