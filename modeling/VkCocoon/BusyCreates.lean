import VkCocoon.Orphans

/-!
# The watchers of in-flight creates

`watchBusyCreate` registers a channel under the name of a creating record and starts a goroutine
that asks the runtime again and again until the record is settled; a `CreatePod` for the name waits
on the channel. Channels are numbered in the order they are made.
-/

namespace VkCocoon
open Lib Tables

/-- The state the watchers share with the rest of the node. -/
structure Busy where
  tables : Tables
  busyCreates : GoMap String ℕ
  nextChan : ℕ
  /-- the channels that are closed -/
  closed : List ℕ
  /-- the records given to the orphan policy so far -/
  orphaned : List VM
  /-- the state each record was last observed in -/
  seen : GoMap VMID VMState

inductive BusyPC where
  | sleep
  | verb
  | inspect
  | lookup (v : VM)
  | index (v : VM)
  | orphan (v : VM)
  /-- the deferred `settleBusyCreate` -/
  | settle
  | done
deriving DecidableEq, Repr

structure BusyWatcher where
  vmID : VMID
  name : String
  settled : ℕ
  pc : BusyPC
deriving DecidableEq, Repr

/-- What a watcher is answered; `late` says that the deadline has passed by then. -/
inductive BusyAnswer where
  | wake
  | cancelled
  | verb (outcome : Option StaleCreateOutcome)
  | inspected (answer : Inspected) (late : Bool)
  | pods (list : Option (List Pod))
  | go
deriving DecidableEq, Repr

/-- The runtime answers about the record it was asked for. -/
def Inspected.about (vmID : VMID) : Inspected → Bool
  | .notFound | .failed => true
  | .found v => v.id == vmID

namespace Busy

/-- The first half of `watchBusyCreate`: the registration, and the goroutine it starts. -/
def watchBusyCreate (b : Busy) (vmID : VMID) (name : String) : Busy × BusyWatcher :=
  ({ b with busyCreates := b.busyCreates.set name b.nextChan, nextChan := b.nextChan + 1 },
    ⟨vmID, name, b.nextChan, .sleep⟩)

/- A later watcher of the name keeps its own entry. -/
def settleBusyCreate (b : Busy) (name : String) (settled : ℕ) : Busy :=
  { b with
    busyCreates := if b.busyCreates.get name = some settled then b.busyCreates.del name
      else b.busyCreates
    closed := settled :: b.closed }

def handleOrphan (policy : OrphanPolicy) (b : Busy) (v : VM) : Busy :=
  { b with
    tables := (VkCocoon.handleOrphan policy (b.tables, []) v).1
    orphaned := b.orphaned ++ [v] }

def indexOrphanByName (b : Busy) (v : VM) : Busy :=
  { b with tables := b.tables.indexOrphanByNameLocked v }

def observe (b : Busy) (vmID : VMID) : Inspected → Busy
  | .found v => { b with seen := b.seen.set vmID v.state }
  | _ => b

end Busy

/-- Where a watcher goes from the answer of an inspect. -/
def BusyPC.afterInspect (c : SettledCreate) (late : Bool) : BusyPC :=
  if c.settled then
    match c.orphan, c.fresh with
    | some v, _ => .orphan v
    | none, some v => .lookup v
    | none, none => .settle
  else if late then .settle
  else .sleep

/-- One step of the goroutine of `watchBusyCreate`. -/
def BusyWatcher.step (policy : OrphanPolicy) (b : Busy) (w : BusyWatcher) (a : BusyAnswer) :
    Option (Busy × BusyPC) :=
  match w.pc, a with
  | .sleep, .wake => some (b, .verb)
  | .sleep, .cancelled => some (b, .settle)
  | .verb, .verb outcome =>
    if outcome == some .collected || outcome == some .notFound then some (b, .settle)
    else some (b, .inspect)
  | .inspect, .inspected answer late =>
    if answer.about w.vmID then
      some (b.observe w.vmID answer, .afterInspect (classifySettledCreate answer) late)
    else none
  | .lookup v, .pods list =>
    match settleCommittedCreate list v with
    | .indexed v => some (b, .index v)
    | .orphan v => some (b, .orphan v)
  | .index v, .go => some (b.indexOrphanByName v, .settle)
  | .orphan v, .go => some (b.handleOrphan policy v, .settle)
  | .settle, .go => some (b.settleBusyCreate w.name w.settled, .done)
  | _, _ => none

/-! ### What a watcher does to the shared state -/

/-- The record a watcher has settled on and not let go of. -/
def BusyPC.record : BusyPC → Option VM
  | .lookup v | .index v | .orphan v => some v
  | _ => none

/-- A watcher that can still observe its record. -/
def BusyPC.open : BusyPC → Bool
  | .sleep | .verb | .inspect => true
  | _ => false

theorem classifySettledCreate_cases (i : Inspected) :
    (classifySettledCreate i = ⟨none, true, none⟩ ∧ i = .notFound) ∨
    (classifySettledCreate i = ⟨none, false, none⟩ ∧ ∀ v, i = .found v → v.state ≠ .running) ∨
    (∃ v, i = .found v ∧ v.state = .running ∧ classifySettledCreate i = ⟨some v, true, none⟩) ∨
    ∃ v text, i = .found v ∧ v.state = .other text ∧
      classifySettledCreate i = ⟨none, true, some v⟩ := by
  cases i with
  | notFound => exact Or.inl ⟨rfl, rfl⟩
  | failed => exact Or.inr (Or.inl ⟨rfl, fun v hv => by cases hv⟩)
  | found v =>
    right
    cases hs : v.state with
    | running => exact Or.inr (Or.inl ⟨v, rfl, hs, by simp only [classifySettledCreate, hs]⟩)
    | creating =>
      refine Or.inl ⟨by simp only [classifySettledCreate, hs], fun u hu => ?_⟩
      cases hu
      rw [hs]
      rintro ⟨⟩
    | created =>
      refine Or.inl ⟨by simp only [classifySettledCreate, hs], fun u hu => ?_⟩
      cases hu
      rw [hs]
      rintro ⟨⟩
    | other text =>
      exact Or.inr (Or.inr ⟨v, text, rfl, hs, by simp only [classifySettledCreate, hs]⟩)

/- The record a watcher goes on with is the one it saw, and it does not see it being created. -/
theorem afterInspect_record {i : Inspected} {late : Bool} {v : VM}
    (h : (BusyPC.afterInspect (classifySettledCreate i) late).record = some v) :
    i = .found v ∧ v.state ≠ .creating := by
  rcases classifySettledCreate_cases i with ⟨hc, -⟩ | ⟨hc, -⟩ | ⟨u, rfl, hs, hc⟩ |
    ⟨u, text, rfl, hs, hc⟩ <;> rw [hc] at h
  · cases h
  · cases late <;> cases h
  · cases h
    exact ⟨rfl, by rw [hs]; rintro ⟨⟩⟩
  · cases h
    exact ⟨rfl, by rw [hs]; rintro ⟨⟩⟩

/-- The effects of a step of a watcher: it observes its record, hands over the one it settled on,
or settles. -/
inductive BusyWatcher.Moves (policy : OrphanPolicy) (b : Busy) (w : BusyWatcher) :
    Busy → BusyPC → Prop where
  | idle (pc' : BusyPC) (hopen : pc'.open = true → w.pc.open = true)
      (hrec : pc'.record = none ∨ pc'.record = w.pc.record) (hdone : pc' ≠ .done)
      (hlive : w.pc ≠ .done) : Moves policy b w b pc'
  | observes (v : VM) (pc' : BusyPC) (hpc : w.pc = .inspect) (hid : v.id = w.vmID)
      (hrec : ∀ u, pc'.record = some u → u = v ∧ u.state ≠ .creating) (hdone : pc' ≠ .done) :
      Moves policy b w { b with seen := b.seen.set w.vmID v.state } pc'
  | indexes (v : VM) (hpc : w.pc = .index v) : Moves policy b w (b.indexOrphanByName v) .settle
  | orphans (v : VM) (hpc : w.pc = .orphan v) : Moves policy b w (b.handleOrphan policy v) .settle
  | settles (hpc : w.pc = .settle) : Moves policy b w (b.settleBusyCreate w.name w.settled) .done

theorem settleCommittedCreate_cases (list : Option (List Pod)) (v : VM) :
    settleCommittedCreate list v = .indexed v ∨ settleCommittedCreate list v = .orphan v := by
  unfold settleCommittedCreate
  split
  · exact Or.inl rfl
  · split
    · exact Or.inl rfl
    · exact Or.inr rfl

theorem afterInspect_ne_done (c : SettledCreate) (late : Bool) : BusyPC.afterInspect c late ≠ .done := by
  unfold BusyPC.afterInspect
  repeat' split
  all_goals rintro ⟨⟩

theorem BusyWatcher.step_moves {policy : OrphanPolicy} {b b' : Busy} {w : BusyWatcher} {a : BusyAnswer}
    {pc' : BusyPC} (h : w.step policy b a = some (b', pc')) : w.Moves policy b b' pc' := by
  unfold BusyWatcher.step at h
  split at h
  next hpc =>
    cases h
    exact .idle _ (fun _ => by rw [hpc]; rfl) (Or.inl rfl) (by rintro ⟨⟩) (by rw [hpc]; rintro ⟨⟩)
  next hpc =>
    cases h
    exact .idle _ (by rintro ⟨⟩) (Or.inl rfl) (by rintro ⟨⟩) (by rw [hpc]; rintro ⟨⟩)
  next hpc =>
    split at h <;> cases h
    · exact .idle _ (by rintro ⟨⟩) (Or.inl rfl) (by rintro ⟨⟩) (by rw [hpc]; rintro ⟨⟩)
    · exact .idle _ (fun _ => by rw [hpc]; rfl) (Or.inl rfl) (by rintro ⟨⟩) (by rw [hpc]; rintro ⟨⟩)
  next answer late hpc =>
    split at h
    next habout =>
      cases h
      cases answer with
      | found v =>
        refine .observes v _ hpc (beq_iff_eq.mp habout) (fun u hu => ?_) (afterInspect_ne_done _ _)
        obtain ⟨hfound, hstate⟩ := afterInspect_record hu
        cases hfound
        exact ⟨rfl, hstate⟩
      | notFound =>
        exact .idle _ (by rintro ⟨⟩) (Or.inl rfl) (by rintro ⟨⟩) (by rw [hpc]; rintro ⟨⟩)
      | failed =>
        refine .idle _ (fun _ => by rw [hpc]; rfl) (Or.inl ?_) (afterInspect_ne_done _ _)
          (by rw [hpc]; rintro ⟨⟩)
        cases late <;> rfl
    next => cases h
  next v list hpc =>
    have hlive : w.pc ≠ .done := by rw [hpc]; rintro ⟨⟩
    rcases settleCommittedCreate_cases list v with heq | heq <;> rw [heq] at h <;> cases h
    · exact .idle _ (by rintro ⟨⟩) (Or.inr (by rw [hpc]; rfl)) (by rintro ⟨⟩) hlive
    · exact .idle _ (by rintro ⟨⟩) (Or.inr (by rw [hpc]; rfl)) (by rintro ⟨⟩) hlive
  next v hpc =>
    cases h
    exact .indexes v hpc
  next v hpc =>
    cases h
    exact .orphans v hpc
  next hpc =>
    cases h
    exact .settles hpc
  next => cases h

end VkCocoon
