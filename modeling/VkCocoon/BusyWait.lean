import VkCocoon.BusyCreates
import VkCocoon.Lib.Pool

/-!
# CreatePod while a watcher has its name

A `CreatePod` whose VM name is watched waits for the watcher to settle. It then looks the name up in
the index, where the watcher has left a committed record, and launches a VM of its own only when
there is nothing to adopt.
-/

namespace VkCocoon
open Lib Tables

/-- The record that is watched, with the channel of its watcher. -/
structure BusyRecord where
  vmID : VMID
  name : String
  chan : ℕ
  name_ne : name ≠ ""

/-- The shared state with notes of what the watcher settled on, which VMs were brought up by a
`CreatePod` of the name, whether an inspect has reported the watched record as not found, and whether
a `CreatePod` that a cancellation released has brought up a VM. -/
structure Handover extends Busy where
  settledOn : Option VM
  broughtUp : List VMID
  goneReported : Bool
  cancelledLaunch : Bool

/-- How the inspect of `adoptableVM` ends, its retries included. -/
inductive AdoptReply where
  | alive
  | notFound
  | failed (err : String)
deriving DecidableEq, Repr

inductive CreatePC where
  | track
  | markCreating
  | await
  | waiting (settled : ℕ)
  | look
  | inspect (existing : VM)
  | drop (existing : VM)
  /-- the evidence check and `bringUpVM`, up to the call of `Runtime.Clone` or `Runtime.Run` -/
  | bringUp
  | bind (v : VM) (fresh : Bool)
  | stamp (v : VM)
  | patch (v : VM)
  | detach (v : VM)
  | failOp (msg : String)
  | failCreate
  | bound (v : VM)
  | superseded
  | failed
deriving DecidableEq, Repr

/-- A call of `CreatePod` for a guest of the runtime. -/
structure Creation where
  pod : Pod
  /-- a cancellation ended its wait -/
  cancelled : Bool
  pc : CreatePC
deriving DecidableEq, Repr

inductive HandoverThread where
  | watcher (w : BusyWatcher)
  | create (x : Creation)
deriving DecidableEq, Repr

inductive HandoverAnswer where
  | go
  | cancelled
  | inspected (r : AdoptReply)
  | broughtUp (v : Except String VM)
  | patched (nameTaken : Bool)
  | watch (a : BusyAnswer)
deriving DecidableEq, Repr

/-- The runtime has the record under its name, and no macOS guests. -/
def BusyAnswer.ofRecord (r : BusyRecord) : BusyAnswer → Bool
  | .inspected (.found v) _ => v.name == r.name && !isMacosVM v
  | _ => true

def Handover.onTables (b : Handover) (f : Tables → Tables) : Handover := { b with tables := f b.tables }

section Step
variable (policy : OrphanPolicy) (r : BusyRecord)

def watchStep (b : Handover) (w : BusyWatcher) (a : BusyAnswer) : Option (Handover × BusyWatcher) :=
  if a.ofRecord r then
    (w.step policy b.toBusy a).map fun s =>
      ({ b with
          toBusy := s.1
          settledOn := match w.pc with
            | .index v => some v
            | _ => b.settledOn
          goneReported := b.goneReported || (match a with
            | .inspected .notFound _ => true
            | _ => false) },
        { w with pc := s.2 })
  else none

def createStep (b : Handover) (x : Creation) (a : HandoverAnswer) : Option (Handover × Creation) :=
  match x.pc, a with
  | .track, .go =>
    match b.tables.trackPodUnlessDeleting x.pod none with
    | (t, true) => some (b.onTables fun _ => t, { x with pc := .markCreating })
    | (t, false) => some (b.onTables fun _ => t, { x with pc := .failed })
  | .markCreating, .go =>
    some (b.onTables fun t => (t.applyLifecycleLocked x.pod .creating "").1, { x with pc := .await })
  | .await, .go =>
    match b.busyCreates.get x.pod.spec.vmName with
    | none => some (b, { x with pc := .look })
    | some settled => some (b, { x with pc := .waiting settled })
  | .waiting settled, .go => if settled ∈ b.closed then some (b, { x with pc := .look }) else none
  | .waiting _, .cancelled => some (b, { x with cancelled := true, pc := .look })
  | .look, .go =>
    match b.tables.vmsByName.get x.pod.spec.vmName with
    | none => some (b, { x with pc := .bringUp })
    | some v =>
      -- a macOS-owned name is never adopted here
      if isMacosVM v then some (b, { x with pc := .bringUp }) else some (b, { x with pc := .inspect v })
  | .inspect v, .inspected .alive => some (b, { x with pc := .bind v false })
  | .inspect v, .inspected .notFound =>
    some ({ b with goneReported := b.goneReported || v.id == r.vmID }, { x with pc := .drop v })
  | .inspect v, .inspected (.failed e) =>
    some (b, { x with pc := .failOp ("inspect vm " ++ (v.id ++ (" indexed as " ++ (x.pod.spec.vmName ++
      (": " ++ e))))) })
  | .drop v, .go =>
    some (b.onTables fun t => t.dropStaleIndex x.pod.spec.vmName v, { x with pc := .bringUp })
  | .bringUp, .broughtUp (.error e) => some (b, { x with pc := .failOp e })
  | .bringUp, .broughtUp (.ok v) =>
    if v.name == x.pod.spec.vmName && !isMacosVM v then
      some ({ b with
          broughtUp := v.id :: b.broughtUp
          cancelledLaunch := b.cancelledLaunch || x.cancelled },
        { x with pc := .bind v true })
    else none
  | .bind v _, .go =>
    match b.tables.trackPodIncarnation x.pod v with
    | (t, true) => some (b.onTables fun _ => t, { x with pc := .stamp v })
    | (t, false) => some (b.onTables fun _ => t, { x with pc := .superseded })
  | .stamp v, .go =>
    match b.tables.applyVMRuntime x.pod v.id v.ip with
    | (t, true) => some (b.onTables fun _ => t, { x with pc := .patch v })
    | (t, false) => some (b.onTables fun _ => t, { x with pc := .detach v })
  | .patch v, .patched nameTaken => some (b, { x with pc := if nameTaken then .detach v else .bound v })
  | .detach v, .go =>
    some (b.onTables fun t => (t.detachIncarnation x.pod.key x.pod.uid (some v)).1,
      { x with pc := .superseded })
  | .failOp msg, .go =>
    some (b.onTables fun t => (t.applyLifecycleLocked x.pod .failed msg).1, { x with pc := .failCreate })
  | .failCreate, .go => some (b.onTables fun t => t.failCreate x.pod false, { x with pc := .failed })
  | _, _ => none

def HandoverThread.step (b : Handover) (_ : ℕ) (t : HandoverThread) (a : HandoverAnswer) :
    Option (Handover × HandoverThread) :=
  match t with
  | .watcher w =>
    match a with
    | .watch a => (watchStep policy r b w a).map fun s => (s.1, .watcher s.2)
    | _ => none
  | .create x => (createStep r b x a).map fun s => (s.1, .create s.2)

def Creation.enters (r : BusyRecord) (x : Creation) : Bool :=
  x.pod.spec.vmName == r.name && !isMacosSpec x.pod.spec && !x.cancelled && x.pc == .track

/-- The watcher of a record together with the `CreatePod` calls for its name. -/
def handover : Program Handover HandoverThread HandoverAnswer Empty :=
  .ofStep
    (fun _ t => match t with
      | .create x => x.enters r
      | .watcher _ => false)
    (HandoverThread.step policy r) (fun _ o => nomatch o)

end Step

abbrev HandoverConfig := Config Handover HandoverThread
abbrev HandoverEvent := PoolEvent HandoverThread HandoverAnswer Empty

/-- The watcher has been started, and no other record has the name. -/
structure Begins (r : BusyRecord) (c : HandoverConfig) : Prop where
  threads : c.threads = [.watcher ⟨r.vmID, r.name, r.chan, .sleep⟩]
  busy : c.shared.busyCreates.get r.name = some r.chan
  unsettled : r.chan ∉ c.shared.closed
  name_unique : ∀ u, c.shared.tables.vmsByName.get r.name = some u →
    u.name = r.name ∧ isMacosVM u = false ∧ u.id = r.vmID
  settledOn : c.shared.settledOn = none
  broughtUp : c.shared.broughtUp = []

/-- What is claimed of a step of a `CreatePod` that was not released by a cancellation. It brings up
a VM only when the watcher has settled and, if that was on a committed record, when this was reported
as not found or there is the `excuse`; the VM it binds is that record, the one it has brought up, or
one of the `others`. -/
def HandedOver (r : BusyRecord) (excuse : Handover → Prop) (others : Handover → VM → Prop)
    (c : HandoverConfig) : HandoverEvent → Prop
  | .run i _ => ∀ x, c.threads[i]? = some (.create x) → x.cancelled = false →
    (x.pc = .bringUp → r.chan ∈ c.shared.closed ∧
      ∀ s, c.shared.settledOn = some s → c.shared.goneReported = true ∨ excuse c.shared) ∧
    ∀ v fresh s, x.pc = .bind v fresh → c.shared.settledOn = some s →
      v.id = s.id ∨ fresh = true ∨ others c.shared v
  | _ => True

/-! ### The invariant -/

def Handover.Excused (b : Handover) : Prop := b.goneReported = true ∨ b.cancelledLaunch = true

/-- A record of the name: the one that is watched, or one that a `CreatePod` brought up. -/
def Handover.Ours (b : Handover) (r : BusyRecord) (v : VM) : Prop :=
  v.name = r.name ∧ isMacosVM v = false ∧ (v.id = r.vmID ∨ v.id ∈ b.broughtUp)

structure HandoverInv (r : BusyRecord) (b : Handover) : Prop where
  index : ∀ u, b.tables.vmsByName.get r.name = some u → b.Ours r u
  lost : b.settledOn.isSome = true → b.tables.vmsByName.get r.name = none → b.Excused
  fresh : r.chan ∉ b.closed ∨ b.settledOn.isSome = true → b.broughtUp ≠ [] → b.Excused
  busy : r.chan ∉ b.closed → b.busyCreates.get r.name = some r.chan
  chan : ∀ n, b.busyCreates.get r.name = some n → n = r.chan
  settledOn : ∀ s, b.settledOn = some s → s.id = r.vmID

/-- The points of `CreatePod` between its wait and its launch. -/
def CreatePC.waited : CreatePC → Bool
  | .look | .inspect _ | .drop _ | .bringUp => true
  | _ => false

def CreatePC.vm : CreatePC → Option VM
  | .inspect v | .drop v | .bind v _ | .stamp v | .patch v | .detach v => some v
  | _ => none

/-- The points at which nothing was found to adopt. -/
def CreatePC.empty : CreatePC → Bool
  | .drop _ | .bringUp => true
  | _ => false

structure Creation.Inv (r : BusyRecord) (b : Handover) (x : Creation) : Prop where
  name : x.pod.spec.vmName = r.name
  waited : x.pc.waited = true → x.cancelled = false → r.chan ∈ b.closed
  waiting : ∀ n, x.pc = .waiting n → n = r.chan
  vm : ∀ v, x.pc.vm = some v → b.Ours r v
  gone : ∀ v, x.pc = .drop v → v.id = r.vmID → b.goneReported = true
  empty : x.pc.empty = true → x.cancelled = false → b.settledOn.isSome = true → b.Excused

structure BusyWatcher.Hands (r : BusyRecord) (b : Handover) (w : BusyWatcher) : Prop where
  vmID : w.vmID = r.vmID
  name : w.name = r.name
  settled : w.settled = r.chan
  unsettled : w.pc ≠ .done → r.chan ∉ b.closed
  record : ∀ v, w.pc.record = some v → v.name = r.name ∧ isMacosVM v = false ∧ v.id = r.vmID

/- The first thread is the only watcher. -/
def HandoverThread.Inv (r : BusyRecord) (b : Handover) (i : ℕ) : HandoverThread → Prop
  | .watcher w => i = 0 ∧ w.Hands r b
  | .create x => x.Inv r b

/-- The notes only grow, and the watcher settles on a record only before it closes its channel. -/
structure Handover.Grows (r : BusyRecord) (b b' : Handover) : Prop where
  closed : r.chan ∈ b.closed → r.chan ∈ b'.closed
  broughtUp : ∀ x ∈ b.broughtUp, x ∈ b'.broughtUp
  gone : b.goneReported = true → b'.goneReported = true
  cancelled : b.cancelledLaunch = true → b'.cancelledLaunch = true
  settledOn : b'.settledOn = b.settledOn ∨ r.chan ∉ b.closed

section Grows
variable {r : BusyRecord} {b b' : Handover}

theorem Handover.Grows.excused (h : b.Grows r b') (he : b.Excused) : b'.Excused :=
  he.imp h.gone h.cancelled

theorem Handover.Grows.ours (h : b.Grows r b') {v : VM} (hv : b.Ours r v) : b'.Ours r v :=
  ⟨hv.1, hv.2.1, hv.2.2.imp_right (h.broughtUp _)⟩

theorem waited_of_empty {pc : CreatePC} (h : pc.empty = true) : pc.waited = true := by
  cases pc <;> first | rfl | cases h

theorem Handover.Grows.create (h : b.Grows r b') {x : Creation} (hx : x.Inv r b) : x.Inv r b' := by
  refine ⟨hx.name, fun hw hc => h.closed (hx.waited hw hc), hx.waiting,
    fun v hv => h.ours (hx.vm v hv), fun v hv hid => h.gone (hx.gone v hv hid), fun he hc hs => ?_⟩
  · rcases h.settledOn with hsame | hopen
    · rw [hsame] at hs
      exact h.excused (hx.empty he hc hs)
    · exact absurd (hx.waited (waited_of_empty he) hc) hopen

/- A step that leaves the channels and the watcher's note alone. -/
theorem HandoverInv.step (hb : HandoverInv r b) (h : b.Grows r b') (hclosed : b'.closed = b.closed)
    (hbusy : b'.busyCreates = b.busyCreates) (hon : b'.settledOn = b.settledOn)
    (hindex : ∀ u, b'.tables.vmsByName.get r.name = some u →
      b.tables.vmsByName.get r.name = some u ∨ b'.Ours r u)
    (hlost : b'.tables.vmsByName.get r.name = none → b.tables.vmsByName.get r.name = none ∨
      (b.settledOn.isSome = true → b'.Excused))
    (hfresh : b'.broughtUp = b.broughtUp ∨ (r.chan ∉ b.closed ∨ b.settledOn.isSome = true → b'.Excused)) :
    HandoverInv r b' := by
  refine ⟨fun u hu => ?_, fun hs hn => ?_, fun hs hne => ?_, ?_, ?_, ?_⟩
  · rcases hindex u hu with hold | hnew
    · exact h.ours (hb.index u hold)
    · exact hnew
  · rw [hon] at hs
    rcases hlost hn with hold | hexc
    · exact h.excused (hb.lost hs hold)
    · exact hexc hs
  · rw [hclosed, hon] at hs
    rcases hfresh with hsame | hexc
    · exact h.excused (hb.fresh hs (hsame ▸ hne))
    · exact hexc hs
  · rw [hclosed, hbusy]
    exact hb.busy
  · rw [hbusy]
    exact hb.chan
  · rw [hon]
    exact hb.settledOn

/- The index under the name is not touched, or holds one of our records. -/
theorem HandoverInv.index_step (hb : HandoverInv r b) (hg : b.Grows r b') (hclosed : b'.closed = b.closed)
    (hbusy : b'.busyCreates = b.busyCreates) (hon : b'.settledOn = b.settledOn)
    (hup : b'.broughtUp = b.broughtUp)
    (h : b'.tables.vmsByName.get r.name = b.tables.vmsByName.get r.name ∨
      ∃ v, b.Ours r v ∧ b'.tables.vmsByName.get r.name = some v) : HandoverInv r b' := by
  refine hb.step hg hclosed hbusy hon (fun u hu => ?_) (fun hn => ?_) (Or.inl hup)
  · rcases h with hsame | ⟨v, hv, hget⟩
    · exact Or.inl (hsame ▸ hu)
    · rw [hget] at hu
      cases hu
      exact Or.inr (hg.ours hv)
  · rcases h with hsame | ⟨v, -, hget⟩
    · exact Or.inl (hsame ▸ hn)
    · rw [hget] at hn
      cases hn

theorem Handover.grows_onTables (f : Tables → Tables) : b.Grows r (b.onTables f) :=
  ⟨id, fun _ h => h, id, id, Or.inl rfl⟩

theorem Handover.grows_refl : b.Grows r b := ⟨id, fun _ h => h, id, id, Or.inl rfl⟩

end Grows

/-! ### The steps of `CreatePod` -/

section CreateStep
variable {r : BusyRecord} {b b' : Handover} {x x' : Creation} {a : HandoverAnswer}

/- A call goes on with the VM it has, or with none. -/
theorem Creation.Inv.goto (hx : x.Inv r b) (pc : CreatePC)
    (hw : pc.waited = true → x.pc.waited = true) (hwait : ∀ n, pc = .waiting n → n = r.chan)
    (hvm : ∀ v, pc.vm = some v → x.pc.vm = some v) (he : pc.empty = false) :
    Creation.Inv r b { x with pc := pc } := by
  refine ⟨hx.name, fun h => hx.waited (hw h), hwait, fun v hv => hx.vm v (hvm v hv), ?_, ?_⟩
  · intro v (hv : pc = .drop v)
    rw [hv] at he
    cases he
  · intro (h : pc.empty = true)
    rw [he] at h
    cases h

/- The wait is over. -/
theorem Creation.Inv.released (hx : x.Inv r b) (stopped : Bool)
    (hc : stopped = false → r.chan ∈ b.closed) :
    Creation.Inv r b { x with cancelled := stopped, pc := .look } :=
  ⟨hx.name, fun _ => hc, (by rintro _ ⟨⟩), (by rintro _ ⟨⟩), (by rintro _ ⟨⟩), (by rintro ⟨⟩)⟩

/-- The obligations of a step. -/
structure StepKept (r : BusyRecord) (b b' : Handover) (x' : Creation) : Prop where
  grows : b.Grows r b'
  inv : HandoverInv r b'
  create : x'.Inv r b'
  closed : b'.closed = b.closed

theorem StepKept.stay (hb : HandoverInv r b) (hx : x'.Inv r b) : StepKept r b b x' :=
  ⟨Handover.grows_refl, hb, hx, rfl⟩

/- A critical section on the tables. -/
theorem StepKept.section (hb : HandoverInv r b) {f : Tables → Tables} (hx : x'.Inv r b)
    (h : (f b.tables).vmsByName.get r.name = b.tables.vmsByName.get r.name ∨
      ∃ v, b.Ours r v ∧ (f b.tables).vmsByName.get r.name = some v) :
    StepKept r b (b.onTables f) x' :=
  ⟨Handover.grows_onTables f, hb.index_step (Handover.grows_onTables f) rfl rfl rfl rfl h,
    (Handover.grows_onTables f).create hx, rfl⟩

theorem look_kept (hb : HandoverInv r b) (hx : x.Inv r b) (hpc : x.pc = .look)
    (h : createStep r b x .go = some (b', x')) : StepKept r b b' x' := by
  have hw : x.pc.waited = true := by rw [hpc]; rfl
  simp only [createStep, hpc, hx.name] at h
  cases hget : b.tables.vmsByName.get r.name with
  | none =>
    rw [hget] at h
    cases h
    exact .stay hb ⟨hx.name, fun _ => hx.waited hw, (by rintro _ ⟨⟩), (by rintro _ ⟨⟩),
      (by rintro _ ⟨⟩), fun _ _ hs => hb.lost hs hget⟩
  | some v =>
    have hours := hb.index v hget
    rw [hget] at h
    dsimp only at h
    rw [if_neg (by rw [hours.2.1]; decide)] at h
    cases h
    exact .stay hb ⟨hx.name, fun _ => hx.waited hw, (by rintro _ ⟨⟩), (by rintro _ ⟨⟩; exact hours),
      (by rintro _ ⟨⟩), (by rintro ⟨⟩)⟩

theorem notFound_kept (hb : HandoverInv r b) (hx : x.Inv r b) {v : VM} (hpc : x.pc = .inspect v) :
    StepKept r b { b with goneReported := b.goneReported || v.id == r.vmID } { x with pc := .drop v } := by
  have hw : x.pc.waited = true := by rw [hpc]; rfl
  have hours : b.Ours r v := hx.vm v (by rw [hpc]; rfl)
  have hgrows : b.Grows r { b with goneReported := b.goneReported || v.id == r.vmID } :=
    ⟨id, fun _ h => h, fun h => Bool.or_eq_true_iff.mpr (Or.inl h), id, Or.inl rfl⟩
  have hgone : v.id = r.vmID → (b.goneReported || v.id == r.vmID) = true :=
    fun hid => Bool.or_eq_true_iff.mpr (Or.inr (beq_iff_eq.mpr hid))
  refine ⟨hgrows, hb.step hgrows rfl rfl rfl (fun u hu => Or.inl hu) Or.inl (Or.inl rfl), ?_, rfl⟩
  refine ⟨hx.name, fun _ => hx.waited hw, (by rintro _ ⟨⟩), ?_, ?_, fun _ _ hs => ?_⟩
  · rintro _ ⟨⟩
    exact hgrows.ours hours
  · rintro _ ⟨⟩ hid
    exact hgone hid
  · rcases hours.2.2 with hid | hmem
    · exact Or.inl (hgone hid)
    · exact hgrows.excused (hb.fresh (Or.inr hs) (List.ne_nil_of_mem hmem))

theorem drop_kept (hb : HandoverInv r b) (hx : x.Inv r b) {v : VM} (hpc : x.pc = .drop v) :
    StepKept r b (b.onTables fun t => t.dropStaleIndex x.pod.spec.vmName v)
      { x with pc := .bringUp } := by
  have hw : x.pc.waited = true := by rw [hpc]; rfl
  have hours : b.Ours r v := hx.vm v (by rw [hpc]; rfl)
  have hgrows := Handover.grows_onTables (r := r) (b := b) fun t => t.dropStaleIndex x.pod.spec.vmName v
  have hexc : b.settledOn.isSome = true → b.Excused := by
    intro hs
    rcases hours.2.2 with hid | hmem
    · exact Or.inl (hx.gone v hpc hid)
    · exact hb.fresh (Or.inr hs) (List.ne_nil_of_mem hmem)
  refine ⟨hgrows, ?_, ?_, rfl⟩
  · rw [hx.name]
    rcases dropStaleIndex_cases b.tables r.name v with hsame | ⟨hnone, -⟩
    · exact hb.index_step (Handover.grows_onTables _) rfl rfl rfl rfl
        (Or.inl (congrArg (fun t => t.vmsByName.get r.name) hsame))
    · refine hb.step (Handover.grows_onTables _) rfl rfl rfl (fun u hu => ?_) (fun _ => Or.inr hexc)
        (Or.inl rfl)
      exact absurd (hnone.symm.trans hu) (by rintro ⟨⟩)
  · exact ⟨hx.name, fun _ => hx.waited hw, (by rintro _ ⟨⟩), (by rintro _ ⟨⟩), (by rintro _ ⟨⟩),
      fun _ _ hs => hexc hs⟩

theorem broughtUp_kept (hb : HandoverInv r b) (hx : x.Inv r b) {v : VM} (hpc : x.pc = .bringUp)
    (hv : v.name = r.name) (hm : isMacosVM v = false) :
    StepKept r b { b with
        broughtUp := v.id :: b.broughtUp
        cancelledLaunch := b.cancelledLaunch || x.cancelled }
      { x with pc := .bind v true } := by
  have hw : x.pc.waited = true := by rw [hpc]; rfl
  set b' : Handover := { b with
    broughtUp := v.id :: b.broughtUp
    cancelledLaunch := b.cancelledLaunch || x.cancelled } with hb'
  have hgrows : b.Grows r b' :=
    ⟨id, fun _ h => List.mem_cons_of_mem _ h, id, fun h => Bool.or_eq_true_iff.mpr (Or.inl h), Or.inl rfl⟩
  have hexc : r.chan ∉ b.closed ∨ b.settledOn.isSome = true → b'.Excused := by
    intro h
    cases hc : x.cancelled with
    | true => exact Or.inr (Bool.or_eq_true_iff.mpr (Or.inr hc))
    | false =>
      rcases h with hopen | hs
      · exact absurd (hx.waited hw hc) hopen
      · exact hgrows.excused (hx.empty (by rw [hpc]; rfl) hc hs)
  have hours : b'.Ours r v := ⟨hv, hm, Or.inr List.mem_cons_self⟩
  refine ⟨hgrows, hb.step hgrows rfl rfl rfl (fun u hu => Or.inl hu) Or.inl (Or.inr hexc), ?_, rfl⟩
  exact ⟨hx.name, fun _ => hx.waited hw, (by rintro _ ⟨⟩), (by rintro _ ⟨⟩; exact hours),
    (by rintro _ ⟨⟩), (by rintro ⟨⟩)⟩

theorem createStep_kept (hb : HandoverInv r b) (hx : x.Inv r b)
    (h : createStep r b x a = some (b', x')) : StepKept r b b' x' := by
  have h₀ := h
  unfold createStep at h
  split at h
  next hpc =>
    have hsame := trackPodUnlessDeleting_vmsByName b.tables x.pod
    split at h <;> rename_i t heq <;> rw [heq] at hsame <;> cases h <;>
      refine .section hb (hx.goto _ (by rintro ⟨⟩) (by rintro _ ⟨⟩) (by rintro _ ⟨⟩) rfl) (Or.inl ?_) <;>
      rw [hsame]
  next hpc =>
    cases h
    refine .section hb (hx.goto _ (by rintro ⟨⟩) (by rintro _ ⟨⟩) (by rintro _ ⟨⟩) rfl) (Or.inl ?_)
    rw [applyLifecycleLocked_vmsByName]
  next hpc =>
    rw [hx.name] at h
    split at h <;> rename_i hget <;> cases h
    · refine .stay hb (hx.released x.cancelled fun _ => ?_)
      by_contra hopen
      rw [hb.busy hopen] at hget
      cases hget
    · refine .stay hb (hx.goto _ (by rintro ⟨⟩) ?_ (by rintro _ ⟨⟩) rfl)
      rintro _ ⟨⟩
      exact hb.chan _ hget
  next n hpc =>
    split at h <;> rename_i hclosed <;> cases h
    exact .stay hb (hx.released x.cancelled fun _ => hx.waiting n hpc ▸ hclosed)
  next hpc =>
    cases h
    exact .stay hb (hx.released true (by rintro ⟨⟩))
  next hpc => exact look_kept hb hx hpc h₀
  next v hpc =>
    cases h
    refine .stay hb (hx.goto _ (by rintro ⟨⟩) (by rintro _ ⟨⟩) (fun u hu => ?_) rfl)
    rw [hpc]
    exact hu
  next v hpc =>
    cases h
    exact notFound_kept hb hx hpc
  next v hpc =>
    cases h
    exact .stay hb (hx.goto _ (by rintro ⟨⟩) (by rintro _ ⟨⟩) (by rintro _ ⟨⟩) rfl)
  next v hpc =>
    cases h
    exact drop_kept hb hx hpc
  next hpc =>
    cases h
    exact .stay hb (hx.goto _ (by rintro ⟨⟩) (by rintro _ ⟨⟩) (by rintro _ ⟨⟩) rfl)
  next v hpc =>
    split at h <;> rename_i hok <;> cases h
    rw [Bool.and_eq_true_iff, beq_iff_eq, hx.name] at hok
    exact broughtUp_kept hb hx hpc hok.1 (by simpa using hok.2)
  next v fresh hpc =>
    have hours : b.Ours r v := hx.vm v (by rw [hpc]; rfl)
    have hget := trackPodIncarnation_index b.tables x.pod _ hours.1 r.name_ne
    split at h <;> rename_i t heq <;> rw [heq] at hget <;> cases h
    · refine .section hb (hx.goto _ (by rintro ⟨⟩) (by rintro _ ⟨⟩) (fun u hu => ?_) rfl)
        (Or.inr ⟨v, hours, hget⟩)
      rw [hpc]
      exact hu
    · exact .section hb (hx.goto _ (by rintro ⟨⟩) (by rintro _ ⟨⟩) (by rintro _ ⟨⟩) rfl)
        (Or.inr ⟨v, hours, hget⟩)
  next v hpc =>
    have hsame := applyVMRuntime_vmsByName b.tables x.pod v.id v.ip
    split at h <;> rename_i t heq <;> rw [heq] at hsame <;> cases h <;>
      refine .section hb (hx.goto _ (by rintro ⟨⟩) (by rintro _ ⟨⟩) (fun u hu => ?_) rfl) (Or.inl ?_)
    · rw [hpc]
      exact hu
    · rw [hsame]
    · rw [hpc]
      exact hu
    · rw [hsame]
  next v nameTaken hpc =>
    cases h
    cases nameTaken with
    | true =>
      refine .stay hb (hx.goto _ (by rintro ⟨⟩) (by rintro _ ⟨⟩) (fun u hu => ?_) rfl)
      rw [hpc]
      exact hu
    | false => exact .stay hb (hx.goto _ (by rintro ⟨⟩) (by rintro _ ⟨⟩) (by rintro _ ⟨⟩) rfl)
  next v hpc =>
    cases h
    have hours : b.Ours r v := hx.vm v (by rw [hpc]; rfl)
    refine .section hb (hx.goto _ (by rintro ⟨⟩) (by rintro _ ⟨⟩) (by rintro _ ⟨⟩) rfl) ?_
    exact (detachIncarnation_index b.tables x.pod.key x.pod.uid _ hours.1 r.name_ne).imp_right fun hget =>
      ⟨v, hours, hget⟩
  next msg hpc =>
    cases h
    refine .section hb (hx.goto _ (by rintro ⟨⟩) (by rintro _ ⟨⟩) (by rintro _ ⟨⟩) rfl) (Or.inl ?_)
    rw [applyLifecycleLocked_vmsByName]
  next hpc =>
    cases h
    refine .section hb (hx.goto _ (by rintro ⟨⟩) (by rintro _ ⟨⟩) (by rintro _ ⟨⟩) rfl) (Or.inl ?_)
    rw [failCreate_vmsByName]
  next => cases h

end CreateStep

/-! ### The steps of the watcher -/

section WatchStep
variable {policy : OrphanPolicy} {r : BusyRecord} {b b' : Handover} {w w' : BusyWatcher} {a : BusyAnswer}

theorem BusyWatcher.step_index {s s' : Busy} {pc' : BusyPC} {v : VM} (hpc : w.pc = .index v)
    (h : w.step policy s a = some (s', pc')) : s' = s.indexOrphanByName v ∧ pc' = .settle := by
  unfold BusyWatcher.step at h
  rw [hpc] at h
  cases a <;> cases h
  exact ⟨rfl, rfl⟩

/- The record a watcher goes on with is the one it had, or the one it has just been answered. -/
theorem BusyWatcher.step_record {s s' : Busy} {pc' : BusyPC} {v : VM}
    (h : w.step policy s a = some (s', pc')) (hv : pc'.record = some v) :
    w.pc.record = some v ∨ (v.id = w.vmID ∧ ∃ late, a = .inspected (.found v) late) := by
  unfold BusyWatcher.step at h
  split at h
  case h_4 answer late hpc =>
    split at h
    next habout =>
      cases h
      obtain ⟨rfl, -⟩ := afterInspect_record hv
      exact Or.inr ⟨beq_iff_eq.mp habout, late, rfl⟩
    next => cases h
  case h_5 u list hpc =>
    left
    rw [hpc]
    rcases settleCommittedCreate_cases list u with heq | heq <;> rw [heq] at h <;> cases h <;> exact hv
  case h_3 => split at h <;> cases h <;> cases hv
  all_goals cases h <;> cases hv

/- What the watcher has settled on goes into the index before the channel is closed. -/
theorem watch_index_kept (hb : HandoverInv r b) (hopen : r.chan ∉ b.closed) {v : VM}
    (hv : v.name = r.name ∧ isMacosVM v = false ∧ v.id = r.vmID)
    (hg : b.Grows r b') (hclosed : b'.closed = b.closed) (hbusy : b'.busyCreates = b.busyCreates)
    (hon : b'.settledOn = some v) (hup : b'.broughtUp = b.broughtUp)
    (hget : b'.tables.vmsByName.get r.name = some v) : HandoverInv r b' := by
  refine ⟨fun u hu => ?_, fun _ hn => ?_, fun _ hne => ?_, ?_, ?_, ?_⟩
  · rw [hget] at hu
    cases hu
    exact ⟨hv.1, hv.2.1, Or.inl hv.2.2⟩
  · rw [hget] at hn
    cases hn
  · exact hg.excused (hb.fresh (Or.inl hopen) (hup ▸ hne))
  · rw [hclosed, hbusy]
    exact hb.busy
  · rw [hbusy]
    exact hb.chan
  · intro s hs
    rw [hon] at hs
    cases hs
    exact hv.2.2

theorem settle_kept (hb : HandoverInv r b) (hopen : r.chan ∉ b.closed) :
    HandoverInv r { b with toBusy := b.toBusy.settleBusyCreate r.name r.chan } := by
  refine ⟨hb.index, hb.lost, fun _ hne => hb.fresh (Or.inl hopen) hne, fun h => ?_, fun n hn => ?_,
    hb.settledOn⟩
  · exact absurd List.mem_cons_self h
  · simp only [Busy.settleBusyCreate, hb.busy hopen, if_true] at hn
    rw [GoMap.get_del_self] at hn
    cases hn

theorem watchStep_kept (hb : HandoverInv r b) (hw : w.Hands r b)
    (h : watchStep policy r b w a = some (b', w')) :
    b.Grows r b' ∧ HandoverInv r b' ∧ w'.Hands r b' := by
  unfold watchStep at h
  split at h
  case isFalse => cases h
  rename_i hrec
  obtain ⟨⟨s', pc'⟩, hstep, heq⟩ := Option.map_eq_some_iff.mp h
  have hopen : r.chan ∉ b.closed := by
    refine hw.unsettled fun hdone => ?_
    unfold BusyWatcher.step at hstep
    rw [hdone] at hstep
    cases a <;> cases hstep
  have hrecord : ∀ v, pc'.record = some v → v.name = r.name ∧ isMacosVM v = false ∧ v.id = r.vmID := by
    intro v hv
    rcases BusyWatcher.step_record hstep hv with hold | ⟨hid, late, rfl⟩
    · exact hw.record v hold
    · rw [BusyAnswer.ofRecord, Bool.and_eq_true_iff, beq_iff_eq, Bool.not_eq_true'] at hrec
      exact ⟨hrec.1, hrec.2, hid.trans hw.vmID⟩
  have hgrows : b.Grows r b' := by
    cases heq
    exact ⟨fun h => absurd h hopen, fun _ h => h, fun h => Bool.or_eq_true_iff.mpr (Or.inl h), id,
      Or.inr hopen⟩
  by_cases hidx : ∃ v, w.pc = .index v
  · obtain ⟨v, hpc⟩ := hidx
    have hv := hw.record v (by rw [hpc]; rfl)
    obtain ⟨rfl, rfl⟩ := BusyWatcher.step_index hpc hstep
    cases heq
    refine ⟨hgrows, ?_, hw.vmID, hw.name, hw.settled, fun _ => hopen, hrecord⟩
    refine watch_index_kept hb hopen hv hgrows rfl rfl (by rw [hpc]) rfl ?_
    exact (indexOrphanByNameLocked_vmsByName b.tables v r.name).trans
      (if_pos ⟨hv.1.symm, hv.1 ▸ r.name_ne⟩)
  · have hon : b'.settledOn = b.settledOn := by
      cases heq
      dsimp only
      split
      next v hpc => exact absurd ⟨v, hpc⟩ hidx
      next => rfl
    cases heq
    cases BusyWatcher.step_moves hstep with
    | idle =>
      exact ⟨hgrows, hb.index_step hgrows rfl rfl hon rfl (Or.inl rfl), hw.vmID, hw.name, hw.settled,
        fun _ => hopen, hrecord⟩
    | observes =>
      exact ⟨hgrows, hb.index_step hgrows rfl rfl hon rfl (Or.inl rfl), hw.vmID, hw.name, hw.settled,
        fun _ => hopen, hrecord⟩
    | indexes v hpc => exact absurd ⟨v, hpc⟩ hidx
    | orphans v hpc =>
      have hv := hw.record v (by rw [hpc]; rfl)
      refine ⟨hgrows, hb.index_step hgrows rfl rfl hon rfl ?_, hw.vmID, hw.name, hw.settled,
        fun _ => hopen, hrecord⟩
      have hindexed := (indexOrphanByNameLocked_vmsByName b.tables v r.name).trans
        (if_pos ⟨hv.1.symm, hv.1 ▸ r.name_ne⟩)
      cases policy with
      | destroy => exact Or.inl rfl
      | alert => exact Or.inr ⟨v, ⟨hv.1, hv.2.1, Or.inl hv.2.2⟩, hindexed⟩
      | keep => exact Or.inr ⟨v, ⟨hv.1, hv.2.1, Or.inl hv.2.2⟩, hindexed⟩
    | settles hpc =>
      refine ⟨hgrows, ?_, hw.vmID, hw.name, hw.settled, fun h => absurd rfl h, hrecord⟩
      have hkept := settle_kept hb hopen
      rw [← hw.name, ← hw.settled] at hkept
      refine hkept.step ?_ rfl rfl hon (fun _ hu => Or.inl hu) Or.inl (Or.inl rfl)
      exact ⟨id, fun _ h => h, hgrows.gone, id, Or.inl hon⟩

end WatchStep

/-! ### Every run -/

section Runs
variable {policy : OrphanPolicy} {r : BusyRecord} {c : HandoverConfig}

def Watched (r : BusyRecord) : HandoverConfig → Prop := Program.Stable (HandoverInv r) (HandoverThread.Inv r)

theorem Creation.inv_of_enters {b : Handover} {x : Creation} (h : x.enters r = true) : x.Inv r b := by
  simp only [Creation.enters, Bool.and_eq_true_iff, beq_iff_eq] at h
  obtain ⟨⟨⟨hname, -⟩, -⟩, hpc⟩ := h
  refine ⟨hname, ?_, ?_, ?_, ?_, ?_⟩ <;> rw [hpc]
  · rintro ⟨⟩
  · rintro _ ⟨⟩
  · rintro _ ⟨⟩
  · rintro _ ⟨⟩
  · rintro ⟨⟩

theorem next_watched {e : HandoverEvent} {c' : HandoverConfig} (hc : Watched r c)
    (h : (handover policy r).next c e = some c') : Watched r c' := by
  refine (handover policy r).next_stable (G := fun _ _ => True) ?_ ?_ (fun _ o => nomatch o)
    c e c' hc trivial h
  · rintro c (w | x) - - henter
    · cases henter
    · exact Creation.inv_of_enters henter
  · intro c i t a b' t' new hc _ ht hs
    obtain ⟨⟨b₁, t₁⟩, hstep, heq⟩ := Option.map_eq_some_iff.mp hs
    cases heq
    cases t with
    | watcher w =>
      obtain ⟨hi, hw⟩ : i = 0 ∧ w.Hands r c.shared := hc.2 i _ ht
      cases a <;> try cases hstep
      rename_i answer
      obtain ⟨⟨b₂, w'⟩, hwatch, heq⟩ := Option.map_eq_some_iff.mp hstep
      cases heq
      obtain ⟨hgrows, hinv, hhands⟩ := watchStep_kept hc.1 hw hwatch
      refine ⟨hinv, ⟨hi, hhands⟩, fun j u hne hu => ?_, fun _ _ _ hm => absurd hm List.not_mem_nil⟩
      have hj := hc.2 j u hu
      cases u with
      | watcher w₂ => exact absurd (hj.1.trans hi.symm) hne
      | create y => exact hgrows.create hj
    | create x =>
      obtain ⟨⟨b₂, x'⟩, hcreate, heq⟩ := Option.map_eq_some_iff.mp hstep
      cases heq
      have hx : x.Inv r c.shared := hc.2 i _ ht
      have hkept := createStep_kept hc.1 hx hcreate
      refine ⟨hkept.inv, hkept.create, fun j u _ hu => ?_, fun _ _ _ hm => absurd hm List.not_mem_nil⟩
      have hj := hc.2 j u hu
      cases u with
      | watcher w =>
        obtain ⟨hj0, hw⟩ := hj
        exact ⟨hj0, hw.vmID, hw.name, hw.settled, fun h => hkept.closed ▸ hw.unsettled h, hw.record⟩
      | create y => exact hkept.grows.create hj

theorem Begins.watched (hc : Begins r c) : Watched r c := by
  refine ⟨⟨fun u hu => ?_, ?_, ?_, fun _ => hc.busy, ?_, ?_⟩, fun i t ht => ?_⟩
  · obtain ⟨hname, hmacos, hid⟩ := hc.name_unique u hu
    exact ⟨hname, hmacos, Or.inl hid⟩
  · intro hs
    rw [hc.settledOn] at hs
    cases hs
  · intro _ hne
    exact absurd hc.broughtUp hne
  · intro n hn
    rw [hc.busy] at hn
    exact (Option.some.inj hn).symm
  · intro s hs
    rw [hc.settledOn] at hs
    cases hs
  · rw [hc.threads] at ht
    obtain ⟨rfl, rfl⟩ : i = 0 ∧ t = .watcher ⟨r.vmID, r.name, r.chan, .sleep⟩ := by
      cases i with
      | zero => exact ⟨rfl, (Option.some.inj ht).symm⟩
      | succ i => cases ht
    exact ⟨rfl, rfl, rfl, rfl, fun _ => hc.unsettled, (by rintro _ ⟨⟩)⟩

/-- A VM that a `CreatePod` of the name brought up after the watched record had been reported as not
found, or after one of them had been released by a cancellation. -/
def Relaunched (b : Handover) (v : VM) : Prop := b.Excused ∧ v.id ∈ b.broughtUp

theorem Watched.handedOver (hc : Watched r c) (e : HandoverEvent) :
    HandedOver r (·.cancelledLaunch = true) Relaunched c e := by
  cases e with
  | start t => trivial
  | env o => trivial
  | run i a =>
    intro x ht hlive
    have hx : x.Inv r c.shared := hc.2 i _ ht
    refine ⟨fun hpc => ?_, fun v fresh s hpc hs => ?_⟩
    · refine ⟨hx.waited (by rw [hpc]; rfl) hlive, fun s hs => ?_⟩
      exact hx.empty (by rw [hpc]; rfl) hlive (by rw [hs]; rfl)
    · rcases (hx.vm v (by rw [hpc]; rfl)).2.2 with hid | hmem
      · exact Or.inl (hid.trans (hc.1.settledOn s hs).symm)
      · refine Or.inr (Or.inr ⟨hc.1.fresh (Or.inr (by rw [hs]; rfl)) ?_, hmem⟩)
        exact List.ne_nil_of_mem hmem

/-- In every run of the watcher with the `CreatePod` calls of its name, a call that was not
cancelled launches nothing before the watcher has settled, and takes over the record it settled on. -/
theorem createPod_takes_over (policy : OrphanPolicy) (r : BusyRecord) (c : HandoverConfig)
    (es : List HandoverEvent) (hc : Begins r c) :
    (handover policy r).machine.Guarded (HandedOver r (·.cancelledLaunch = true) Relaunched) c es :=
  (handover policy r).machine.guarded_of_invariant
    (fun _ _ _ hinv _ hnext => next_watched hinv hnext) (fun _ e hinv _ => Watched.handedOver hinv e)
    hc.watched ((handover policy r).machine.guarded_true c es)

/-! ### A run that adopts, and two that relaunch -/

def namedVM (addr : ℕ) (id : VMID) : VM := ⟨addr, id, "vk-a", "", .running, "", "", 0, []⟩

def namedPod (uid : UID) : Pod :=
  ⟨0, "ns/a", uid, false, 0, ⟨"vk-a", true, .other "linux", .cloudHypervisor⟩, false, none, .absent, "",
    "", "", true, false, false⟩

def inFlight : BusyRecord := ⟨"vm1", "vk-a", 0, by decide⟩

def beginsInFlight : HandoverConfig where
  shared :=
    { tables := .new, busyCreates := GoMap.empty.set "vk-a" 0, nextChan := 1, closed := [], orphaned := [],
      seen := .empty, settledOn := none, broughtUp := [], goneReported := false, cancelledLaunch := false }
  threads := [.watcher ⟨"vm1", "vk-a", 0, .sleep⟩]

theorem begins_inFlight : Begins inFlight beginsInFlight := by
  refine ⟨rfl, by decide, by decide, ?_, rfl, rfl⟩
  rintro _ ⟨⟩

def enter (uid : UID) : HandoverEvent := .start (.create ⟨namedPod uid, false, .track⟩)

/-- The record turns out to be running, and a pod names it. -/
def settleTrace : List HandoverEvent :=
  [.run 0 (.watch .wake), .run 0 (.watch (.verb (some .notCreating))),
   .run 0 (.watch (.inspected (.found (namedVM 1 "vm1")) false)),
   .run 0 (.watch (.pods (some [namedPod "u1"]))), .run 0 (.watch .go), .run 0 (.watch .go)]

def adoptTrace : List HandoverEvent :=
  [enter "u1", .run 1 .go, .run 1 .go, .run 1 .go] ++ settleTrace ++
  [.run 1 .go, .run 1 .go, .run 1 (.inspected .alive), .run 1 .go, .run 1 .go, .run 1 (.patched false)]

theorem createPod_takes_over_inFlight :
    Begins inFlight beginsInFlight ∧
    ((handover .destroy inFlight).machine.exec beginsInFlight adoptTrace).map
      (fun c => c.threads[1]?) =
      some (some (.create ⟨namedPod "u1", false, .bound (namedVM 1 "vm1")⟩)) ∧
    (handover .destroy inFlight).machine.Guarded
      (HandedOver inFlight (·.cancelledLaunch = true) Relaunched) beginsInFlight adoptTrace :=
  ⟨begins_inFlight, by decide +kernel,
    createPod_takes_over .destroy inFlight beginsInFlight adoptTrace begins_inFlight⟩

/-- The record is gone by the time it is inspected. Its pod launches another VM and loses the name to
a new incarnation, which finds that VM in the index. -/
def relaunchTrace : List HandoverEvent :=
  settleTrace ++ [enter "u1", .run 1 .go, .run 1 .go, .run 1 .go, .run 1 .go,
    .run 1 (.inspected .notFound), .run 1 .go, .run 1 (.broughtUp (.ok (namedVM 2 "vm2"))), .run 1 .go,
    .run 1 .go, .run 1 (.patched true), .run 1 .go, enter "u2", .run 2 .go, .run 2 .go, .run 2 .go,
    .run 2 .go, .run 2 (.inspected .alive)]

/-- A call that a cancellation released launches a VM in place of the record, and its successor
finds that one gone. -/
def cancelTrace : List HandoverEvent :=
  [enter "u1", .run 1 .go, .run 1 .go, .run 1 .go, .run 1 .cancelled, .run 1 .go] ++ settleTrace ++
  [.run 1 (.broughtUp (.ok (namedVM 2 "vm2"))), .run 1 .go, .run 1 .go, .run 1 (.patched true),
    .run 1 .go, enter "u2", .run 2 .go, .run 2 .go, .run 2 .go, .run 2 .go,
    .run 2 (.inspected .notFound), .run 2 .go]

theorem createPod_takes_relaunched :
    (¬∀ (policy : OrphanPolicy) (r : BusyRecord) (c : HandoverConfig) (es : List HandoverEvent),
      Begins r c →
      (handover policy r).machine.Guarded (HandedOver r (fun _ => False) fun _ _ => False) c es) ∧
    ¬∀ (policy : OrphanPolicy) (r : BusyRecord) (c : HandoverConfig) (es : List HandoverEvent),
      Begins r c →
      (handover policy r).machine.Guarded (HandedOver r (fun _ => False) Relaunched) c es := by
  constructor <;> intro hall
  · have hrun : ((handover .destroy inFlight).machine.exec beginsInFlight relaunchTrace).map
        (fun c => (c.threads[2]?, c.shared.settledOn)) =
        some (some (.create ⟨namedPod "u2", false, .bind (namedVM 2 "vm2") false⟩),
          some (namedVM 1 "vm1")) := by decide +kernel
    obtain ⟨c, hc, hboth⟩ := Option.map_eq_some_iff.mp hrun
    obtain ⟨hthread, hon⟩ := Prod.mk.inj hboth
    have hg := hall .destroy inFlight beginsInFlight (relaunchTrace ++ [.run 2 .go]) begins_inFlight
    have hlast := (((handover .destroy inFlight).machine.guarded_append _ _ _ _).mp hg).2 c hc
    rcases (hlast.1 _ hthread rfl).2 _ _ _ rfl hon with hid | hfresh | hfalse
    · exact absurd hid (by decide)
    · cases hfresh
    · exact hfalse
  · have hrun : ((handover .destroy inFlight).machine.exec beginsInFlight cancelTrace).map
        (fun c => (c.threads[2]?, c.shared.settledOn, c.shared.goneReported)) =
        some (some (.create ⟨namedPod "u2", false, .bringUp⟩), some (namedVM 1 "vm1"), false) := by
      decide +kernel
    obtain ⟨c, hc, hall3⟩ := Option.map_eq_some_iff.mp hrun
    obtain ⟨hthread, hrest⟩ := Prod.mk.inj hall3
    obtain ⟨hon, hgone⟩ := Prod.mk.inj hrest
    have hg := hall .destroy inFlight beginsInFlight (cancelTrace ++ [.run 2 .go]) begins_inFlight
    have hlast := (((handover .destroy inFlight).machine.guarded_append _ _ _ _).mp hg).2 c hc
    rcases ((hlast.1 _ hthread rfl).1 rfl).2 _ hon with hyes | hfalse
    · rw [hgone] at hyes
      cases hyes
    · exact hfalse

end Runs

end VkCocoon
