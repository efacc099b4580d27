import VkCocoon.Lib.Pool
import VkCocoon.World

/-!
# Fork snapshots and the VM they were saved from

Sub-agents of a VM are cloned from one snapshot of it, `fork-n` for the name `n`. Fresh
bring-ups drop that snapshot before they boot, deletes drop it with the VM, and
`ensureForkSnapshot` saves it once and hands it out from then on. All of this is about one
name, so the state below is that of one name.
-/

namespace VkCocoon.Fork
open Lib

/-- The function `ensureForkSnapshot` gives to its singleflight group. -/
inductive FlightPC where
  | check
  | lookup
  | inspect
  -- SnapshotSave
  | save (id : VMID)
  /-- the runtime is writing the snapshot -/
  | saving (id : VMID)
  /-- `removeStaleSnapshot` of the snapshot that holds the name -/
  | evict (id : VMID)
  | resave (id : VMID)
  | resaving (id : VMID)
  /-- the function has returned and the group has not let go of the key yet -/
  | ending (res : Except String VMID)
deriving DecidableEq

structure State where
  /-- the VMs of the name in the runtime -/
  live : List VMID
  /-- `vmsByName[n]`, by the ID of the record -/
  indexed : Option VMID
  /-- the VM that `fork-n` was saved from -/
  baseline : Option VMID
  /-- `forkSnapshotSF` under the key of the name -/
  flight : Option FlightPC
  /-- what the flights so far returned -/
  results : List (Except String VMID)
  /-- the VMs that fresh bring-ups launched, in order -/
  launches : List VMID
  /-- the launches whose bring-up has returned -/
  completed : List ℕ
deriving DecidableEq

/-- The answer of a call; `found` is which VM an inspect by name finds. -/
structure Answer where
  reply : Reply
  found : Option VMID
deriving DecidableEq

/-- `bringUpVM` from the invalidation on. -/
inductive FreshPC where
  | invalidate
  | launch
  | done
deriving DecidableEq

/-- `deletePod` from the removal of the VM on, and the end of an eviction. -/
inductive TeardownPC where
  | remove
  | dropSnapshots
  | forget
  | done
deriving DecidableEq

/-- `ensureForkSnapshot`. `earlier` are the launches whose bring-up had returned when it was called. -/
inductive CallPC where
  | enter
  | waiting (ticket : ℕ) (earlier : List ℕ)
  | returned (earlier : List ℕ) (res : Except String VMID)
  | canceled
deriving DecidableEq

inductive Thread where
  /-- `id` is what the runtime will call the VM -/
  | fresh (id : VMID) (pc : FreshPC)
  /-- `keep` leaves the snapshots: `keepSnapshots` of a delete, and every eviction -/
  | teardown (id : VMID) (keep : Bool) (pc : TeardownPC)
  | call (pc : CallPC)
deriving DecidableEq

inductive EnvOp where
  /-- the flight takes its next step -/
  | flight (a : Answer)
  /-- a VM of the name is gone -/
  | vanish (id : VMID)
  /-- the name index is written: a bind, a detach, an adoption -/
  | index (id : Option VMID)
  /-- `removeLocalSnapshots` of a wake or of the collector -/
  | dropSnapshot (r : Reply)
deriving DecidableEq

/-- How `cocoon snapshot save` ends. -/
inductive Saved where
  | saved
  | taken
  | failed (err : String)
deriving DecidableEq

namespace State
variable (s : State)

/-- `Runtime.SnapshotRemoveIfExists` of `fork-n` -/
def removeBaseline (r : Reply) : State := if r.lands then { s with baseline := none } else s

def endFlight (res : Except String VMID) : State := { s with flight := some (.ending res) }

/-- The flight of `n` ends with an error of `SnapshotSave`. -/
def failSave (n e : String) : State :=
  s.endFlight (.error s!"snapshot fork source vm {n} as fork-{n}: {e}")

/-- `cocoon snapshot save` comes to its end. A name that is held is refused. -/
def finishSave (id : VMID) (r : Reply) : State × Saved :=
  match s.baseline, r with
  | some _, .ok | _, .nameTaken => (s, .taken)
  | none, .ok => ({ s with baseline := some id }, .saved)
  | none, .failedAfter e => ({ s with baseline := some id }, .failed e)
  | _, .failed e | some _, .failedAfter e => (s, .failed e)

/-- One step of the flight of `n`. -/
def stepFlight (n : String) (a : Answer) : Option State :=
  match s.flight with
  | none => none
  | some .check =>
    match s.baseline, a.reply with
    | some id, .ok => some (s.endFlight (.ok id))
    -- any error of the inspect is taken for an absent snapshot
    | _, _ => some { s with flight := some .lookup }
  | some .lookup =>
    some { s with flight := some (match s.indexed with
      | some id => .save id
      | none => .inspect) }
  | some .inspect =>
    match a.reply.err, a.found with
    | some e, _ => some (s.endFlight (.error s!"inspect fork source vm {n}: {e}"))
    | none, none => some (s.endFlight (.error s!"inspect fork source vm {n}: vm not found"))
    | none, some id => if id ∈ s.live then some { s with flight := some (.save id) } else none
  | some (.save id) =>
    -- the name may be looked at before the VM
    if a.reply = .nameTaken then some { s with flight := some (.evict id) }
    else if id ∈ s.live then some { s with flight := some (.saving id) }
    else some (s.failSave n "vm not found")
  | some (.saving id) =>
    match s.finishSave id a.reply with
    | (s, .saved) => some (s.endFlight (.ok id))
    | (s, .taken) => some { s with flight := some (.evict id) }
    | (s, .failed e) => some (s.failSave n e)
  | some (.evict id) =>
    let s := s.removeBaseline a.reply
    match a.reply.err with
    | none => some { s with flight := some (.resave id) }
    | some e => some (s.failSave n e)
  | some (.resave id) =>
    if id ∈ s.live then some { s with flight := some (.resaving id) }
    else some (s.failSave n "vm not found")
  | some (.resaving id) =>
    match s.finishSave id a.reply with
    | (s, .saved) => some (s.endFlight (.ok id))
    | (s, .taken) => some (s.failSave n "snapshot name already in use")
    | (s, .failed e) => some (s.failSave n e)
  | some (.ending res) => some { s with flight := none, results := s.results ++ [res] }

end State

def stepFresh (s : State) (id : VMID) (a : Answer) : FreshPC → Option (State × FreshPC)
  | .invalidate => some (s.removeBaseline a.reply, .launch)
  | .launch =>
    -- the runtime gives no ID out twice
    if id ∈ s.launches ∨ id ∈ s.live then none
    else
      let s' := if a.reply.lands then { s with live := id :: s.live, launches := s.launches ++ [id] } else s
      some (if a.reply.err.isNone then { s' with completed := s.launches.length :: s'.completed } else s',
        .done)
  | .done => none

def stepTeardown (s : State) (id : VMID) (keep : Bool) (a : Answer) :
    TeardownPC → Option (State × TeardownPC)
  | .remove =>
    some (if a.reply.lands then { s with live := s.live.filter (· ≠ id) } else s,
      if a.reply.err.isSome then .done else if keep then .forget else .dropSnapshots)
  | .dropSnapshots => some (s.removeBaseline a.reply, .forget)
  | .forget => some ({ s with indexed := if s.indexed = some id then none else s.indexed }, .done)
  | .done => none

def stepCall (s : State) (a : Answer) : CallPC → Option (State × CallPC)
  | .enter =>
    -- the first caller starts the flight, the others join it
    some ({ s with flight := some (s.flight.getD .check) }, .waiting s.results.length s.completed)
  | .waiting ticket earlier =>
    match s.results[ticket]? with
    | some res => some (s, .returned earlier res)
    | none => if a.reply.err.isSome then some (s, .canceled) else none
  | .returned _ _ | .canceled => none

def step (s : State) (_ : ℕ) (t : Thread) (a : Answer) : Option (State × Thread) :=
  match t with
  | .fresh id pc => (stepFresh s id a pc).map fun r => (r.1, .fresh id r.2)
  | .teardown id keep pc => (stepTeardown s id keep a pc).map fun r => (r.1, .teardown id keep r.2)
  | .call pc => (stepCall s a pc).map fun r => (r.1, .call r.2)

def entry (_ : State) : Thread → Bool
  | .fresh _ .invalidate | .teardown _ _ .remove | .teardown _ _ .dropSnapshots | .call .enter => true
  | _ => false

def env (n : String) (s : State) : EnvOp → Option State
  | .flight a => s.stepFlight n a
  | .vanish id => some { s with live := s.live.filter (· ≠ id) }
  | .index id => some { s with indexed := id }
  | .dropSnapshot r => some (s.removeBaseline r)

def forks (n : String) : Program State Thread Answer EnvOp := .ofStep entry step (env n)

/-- A node on which nothing runs; VMs and a snapshot of the name may be there. -/
def Initial (c : Config State Thread) : Prop :=
  c.threads = [] ∧ c.shared.flight = none ∧ c.shared.results = [] ∧ c.shared.launches = [] ∧
    c.shared.completed = []

/-- A call returns a snapshot of the VM of every bring-up that was through, or of a later one. -/
def CurrentLineage (c : Config State Thread) : Prop :=
  ∀ (i : ℕ) (earlier : List ℕ) (id : VMID),
    c.threads[i]? = some (.call (.returned earlier (.ok id))) →
    ∀ k ∈ earlier, id ∈ c.shared.launches.drop k

def Thread.isInvalidating : Thread → Bool
  | .fresh _ .invalidate => true
  | _ => false

def Thread.isLaunching : Thread → Bool
  | .fresh _ .launch => true
  | _ => false

/-- When a fresh bring-up invalidates: the removal takes effect or there is nothing to remove, no
flight is under way, no VM of the name is left, and no other bring-up is about to launch one. -/
def CleanInvalidation (c : Config State Thread) : PoolEvent Thread Answer EnvOp → Prop
  | .run i a => (c.threads[i]?).any Thread.isInvalidating = true →
    (a.reply.lands = true ∨ c.shared.baseline = none) ∧ c.shared.flight = none ∧ c.shared.live = [] ∧
      ∀ t ∈ c.threads, t.isLaunching = false
  | _ => True

instance (c : Config State Thread) : ∀ e, Decidable (CleanInvalidation c e)
  | .run i a => inferInstanceAs (Decidable ((c.threads[i]?).any Thread.isInvalidating = true →
    (a.reply.lands = true ∨ c.shared.baseline = none) ∧ c.shared.flight = none ∧ c.shared.live = [] ∧
      ∀ t ∈ c.threads, t.isLaunching = false))
  | .start _ | .env _ => isTrue trivial

/-! ### What can still reach a sub-agent -/

/-- A VM that exists, or whose state has been or is being saved. -/
def State.Holds (s : State) (x : VMID) : Prop :=
  x ∈ s.live ∨ s.baseline = some x ∨ s.flight = some (.saving x) ∨ s.flight = some (.resaving x) ∨
    s.flight = some (.ending (.ok x))

/-- Everything a flight could hand out is of the last launch. -/
def State.Latest (s : State) : Prop := ∀ x, s.Holds x → ∀ y, s.launches.getLast? = some y → x = y

/-- A step that launches nothing brings back no VM and no snapshot. -/
structure Shrinks (s s' : State) : Prop where
  holds : ∀ x, s'.Holds x → s.Holds x
  launches : s'.launches = s.launches
  completed : s'.completed = s.completed
  results : s'.results = s.results ∨
    ∃ res, s.flight = some (.ending res) ∧ s'.results = s.results ++ [res]

theorem Shrinks.of_same {s s' : State} (hlive : ∀ x ∈ s'.live, x ∈ s.live)
    (hbase : ∀ x, s'.baseline = some x → s.baseline = some x) (hflight : s'.flight = s.flight)
    (hl : s'.launches = s.launches) (hc : s'.completed = s.completed) (hr : s'.results = s.results) :
    Shrinks s s' := by
  refine ⟨fun x hx => ?_, hl, hc, Or.inl hr⟩
  unfold State.Holds at hx ⊢
  rw [hflight] at hx
  rcases hx with h | h | h
  · exact Or.inl (hlive x h)
  · exact Or.inr (Or.inl (hbase x h))
  · exact Or.inr (Or.inr h)

theorem removeBaseline_shrinks (s : State) (r : Reply) : Shrinks s (s.removeBaseline r) := by
  unfold State.removeBaseline
  split
  · exact .of_same (fun _ h => h) (fun _ h => by cases h) rfl rfl rfl rfl
  · exact .of_same (fun _ h => h) (fun _ h => h) rfl rfl rfl rfl

/-- What the flight itself holds at a point. -/
def FlightPC.held : FlightPC → Option VMID
  | .saving id | .resaving id | .ending (.ok id) => some id
  | _ => none

theorem State.holds_iff (s : State) (x : VMID) :
    s.Holds x ↔ x ∈ s.live ∨ s.baseline = some x ∨ s.flight.bind FlightPC.held = some x := by
  unfold State.Holds
  cases s.flight with
  | none => simp
  | some pc =>
    cases pc with
    | ending res => cases res <;> simp [FlightPC.held]
    | _ => simp [FlightPC.held]

/- The flight moves on: what it then holds it held before, as a VM, as a snapshot or as a save. -/
theorem flight_shrinks {s s' : State} {pc : FlightPC} (hlive : s'.live = s.live)
    (hbase : ∀ x, s'.baseline = some x → s.Holds x) (hflight : s'.flight = some pc)
    (hheld : ∀ x, pc.held = some x → s.Holds x) (hl : s'.launches = s.launches)
    (hc : s'.completed = s.completed) (hr : s'.results = s.results) : Shrinks s s' := by
  refine ⟨fun x hx => ?_, hl, hc, Or.inl hr⟩
  rw [State.holds_iff, hflight] at hx
  rcases hx with h | h | h
  · exact Or.inl (hlive ▸ h)
  · exact hbase x h
  · exact hheld x h

theorem failSave_shrinks {s s' : State} (h : Shrinks s s') (n e : String) :
    Shrinks s (s'.failSave n e) := by
  refine ⟨fun x hx => h.holds x ?_, h.launches, h.completed, h.results⟩
  rw [State.holds_iff] at hx ⊢
  rcases hx with hx | hx | hx
  · exact Or.inl hx
  · exact Or.inr (Or.inl hx)
  · cases hx

theorem moves_shrinks {s s' : State} (h : Shrinks s s') {pc : FlightPC} (hpc : pc.held = none) :
    Shrinks s { s' with flight := some pc } := by
  refine ⟨fun x hx => h.holds x ?_, h.launches, h.completed, h.results⟩
  rw [State.holds_iff] at hx ⊢
  rcases hx with hx | hx | hx
  · exact Or.inl hx
  · exact Or.inr (Or.inl hx)
  · cases hpc.symm.trans hx

/- A save that is being written lands as the snapshot of its VM or not at all. -/
theorem finishSave_shrinks {s : State} {id : VMID} (hid : s.Holds id) (r : Reply) :
    Shrinks s (s.finishSave id r).1 ∧ Shrinks s ((s.finishSave id r).1.endFlight (.ok id)) := by
  have hb : ∀ x, s.baseline = some x → s.Holds x := fun x h => Or.inr (Or.inl h)
  have hsame : Shrinks s s := .of_same (fun _ h => h) (fun _ h => h) rfl rfl rfl rfl
  have hend : ∀ x, (FlightPC.ending (.ok id)).held = some x → s.Holds x := fun x h => by
    cases h
    exact hid
  have hland : Shrinks s { s with baseline := some id } := by
    refine ⟨fun x hx => ?_, rfl, rfl, Or.inl rfl⟩
    rw [State.holds_iff] at hx
    rcases hx with h | h | h
    · exact Or.inl h
    · cases h
      exact hid
    · exact (s.holds_iff x).mpr (Or.inr (Or.inr h))
  have hnew : ∀ x, some id = some x → s.Holds x := fun x h => Option.some.inj h ▸ hid
  unfold State.finishSave
  split
  · exact ⟨hsame, flight_shrinks rfl hb rfl hend rfl rfl rfl⟩
  · exact ⟨hsame, flight_shrinks rfl hb rfl hend rfl rfl rfl⟩
  · exact ⟨hland, flight_shrinks rfl hnew rfl hend rfl rfl rfl⟩
  · exact ⟨hland, flight_shrinks rfl hnew rfl hend rfl rfl rfl⟩
  · exact ⟨hsame, flight_shrinks rfl hb rfl hend rfl rfl rfl⟩
  · exact ⟨hsame, flight_shrinks rfl hb rfl hend rfl rfl rfl⟩

theorem stepFlight_shrinks {n : String} {s s' : State} {a : Answer} (h : s.stepFlight n a = some s') :
    Shrinks s s' := by
  have hb : ∀ x, s.baseline = some x → s.Holds x := fun x h => Or.inr (Or.inl h)
  have hsame : Shrinks s s := .of_same (fun _ h => h) (fun _ h => h) rfl rfl rfl rfl
  have hends : ∀ e : String, Shrinks s (s.endFlight (.error e)) := fun e => moves_shrinks hsame rfl
  have hwrites : ∀ (pc : FlightPC) (id : VMID), pc.held = some id → id ∈ s.live →
      Shrinks s { s with flight := some pc } := by
    intro pc id hpc hlive
    refine flight_shrinks rfl hb rfl (fun x hx => ?_) rfl rfl rfl
    cases hpc.symm.trans hx
    exact Or.inl hlive
  unfold State.stepFlight at h
  cases hf : s.flight with
  | none =>
    rw [hf] at h
    cases h
  | some pc =>
    rw [hf] at h
    cases pc with
    | check =>
      dsimp only at h
      split at h
      next id hid _ =>
        cases h
        refine flight_shrinks rfl hb rfl (fun x hx => ?_) rfl rfl rfl
        cases hx
        exact hb id hid
      next =>
        cases h
        exact moves_shrinks hsame rfl
    | lookup =>
      cases h
      refine moves_shrinks hsame ?_
      split <;> rfl
    | inspect =>
      dsimp only at h
      split at h
      · cases h
        exact hends _
      · cases h
        exact hends _
      · split at h
        · cases h
          exact moves_shrinks hsame rfl
        · cases h
    | save id =>
      dsimp only at h
      split at h
      · cases h
        exact moves_shrinks hsame rfl
      · split at h
        next hlive =>
          cases h
          exact hwrites _ id rfl hlive
        next =>
          cases h
          exact failSave_shrinks hsame _ _
    | saving id =>
      have hheld : s.Holds id := (s.holds_iff id).mpr (Or.inr (Or.inr (by rw [hf]; rfl)))
      obtain ⟨hkept, hended⟩ := finishSave_shrinks hheld a.reply
      dsimp only at h
      generalize s.finishSave id a.reply = fin at h hkept hended
      obtain ⟨s₁, out⟩ := fin
      cases out with
      | saved =>
        cases h
        exact hended
      | taken =>
        cases h
        exact moves_shrinks hkept rfl
      | failed e =>
        cases h
        exact failSave_shrinks hkept _ _
    | evict id =>
      have hless := removeBaseline_shrinks s a.reply
      dsimp only at h
      split at h <;> cases h
      · exact moves_shrinks hless rfl
      · exact failSave_shrinks hless _ _
    | resave id =>
      dsimp only at h
      split at h
      next hlive =>
        cases h
        exact hwrites _ id rfl hlive
      next =>
        cases h
        exact failSave_shrinks hsame _ _
    | resaving id =>
      have hheld : s.Holds id := (s.holds_iff id).mpr (Or.inr (Or.inr (by rw [hf]; rfl)))
      obtain ⟨hkept, hended⟩ := finishSave_shrinks hheld a.reply
      dsimp only at h
      generalize s.finishSave id a.reply = fin at h hkept hended
      obtain ⟨s₁, out⟩ := fin
      cases out with
      | saved =>
        cases h
        exact hended
      | taken | failed =>
        cases h
        exact failSave_shrinks hkept _ _
    | ending res =>
      cases h
      refine ⟨fun x hx => ?_, rfl, rfl, Or.inr ⟨res, hf, rfl⟩⟩
      rcases (State.holds_iff _ x).mp hx with h | h | h
      · exact Or.inl h
      · exact hb x h
      · cases h

theorem env_shrinks {n : String} {s s' : State} {o : EnvOp} (h : env n s o = some s') : Shrinks s s' := by
  cases o with
  | flight a => exact stepFlight_shrinks h
  | vanish id =>
    cases h
    exact .of_same (fun x hx => (List.mem_filter.mp hx).1) (fun _ h => h) rfl rfl rfl rfl
  | index id =>
    cases h
    exact .of_same (fun _ h => h) (fun _ h => h) rfl rfl rfl rfl
  | dropSnapshot r =>
    cases h
    exact removeBaseline_shrinks s r

theorem stepTeardown_shrinks {s s' : State} {id : VMID} {keep : Bool} {a : Answer}
    {pc pc' : TeardownPC} (h : stepTeardown s id keep a pc = some (s', pc')) : Shrinks s s' := by
  cases pc with
  | remove =>
    cases h
    split
    · exact .of_same (fun x hx => (List.mem_filter.mp hx).1) (fun _ h => h) rfl rfl rfl rfl
    · exact .of_same (fun _ h => h) (fun _ h => h) rfl rfl rfl rfl
  | dropSnapshots =>
    cases h
    exact removeBaseline_shrinks s a.reply
  | forget =>
    cases h
    exact .of_same (fun _ h => h) (fun _ h => h) rfl rfl rfl rfl
  | done => cases h

theorem stepCall_shrinks {s s' : State} {a : Answer} {pc pc' : CallPC}
    (h : stepCall s a pc = some (s', pc')) : Shrinks s s' := by
  have hrefl : Shrinks s s := .of_same (fun _ h => h) (fun _ h => h) rfl rfl rfl rfl
  cases pc with
  | enter =>
    cases h
    cases hf : s.flight with
    | none =>
      exact flight_shrinks rfl (fun x h => Or.inr (Or.inl h)) rfl (fun x h => by cases h) rfl rfl rfl
    | some fl => exact .of_same (fun _ h => h) (fun _ h => h) hf.symm rfl rfl rfl
  | waiting ticket earlier =>
    unfold stepCall at h
    dsimp only at h
    split at h
    · cases h
      exact hrefl
    · split at h
      · cases h
        exact hrefl
      · cases h
  | returned earlier res => cases h
  | canceled => cases h

/-! ### The invariant -/

/-- What a call has got or will get. -/
def CallFine (s : State) : CallPC → Prop
  | .waiting ticket earlier => ticket ≤ s.results.length ∧ (∀ k ∈ earlier, k < s.launches.length) ∧
    ∀ id, s.results[ticket]? = some (.ok id) → ∀ k ∈ earlier, id ∈ s.launches.drop k
  | .returned earlier (.ok id) => ∀ k ∈ earlier, id ∈ s.launches.drop k
  | _ => True

structure Inv (c : Config State Thread) : Prop where
  one : ∀ (i j : ℕ) (id id' : VMID), c.threads[i]? = some (.fresh id .launch) →
    c.threads[j]? = some (.fresh id' .launch) → i = j
  pending : ∀ (i : ℕ) (id : VMID), c.threads[i]? = some (.fresh id .launch) →
    ∀ x, ¬c.shared.Holds x
  latest : c.shared.Latest
  bound : ∀ k ∈ c.shared.completed, k < c.shared.launches.length
  calls : ∀ (i : ℕ) (pc : CallPC), c.threads[i]? = some (.call pc) → CallFine c.shared pc

theorem last_mem_drop {l : List VMID} {k : ℕ} (h : k < l.length) {x : VMID}
    (hx : ∀ y, l.getLast? = some y → x = y) : x ∈ l.drop k := by
  have hne : l ≠ [] := fun e => by rw [e] at h; exact absurd h (Nat.not_lt_zero k)
  have hlast : x = l.getLast hne := hx _ (List.getLast?_eq_some_getLast hne)
  have hdrop : l.drop k ≠ [] := fun e => by
    have hlen := congrArg List.length e
    rw [List.length_drop, List.length_nil] at hlen
    omega
  rw [hlast, ← List.getLast_drop hdrop]
  exact List.getLast_mem hdrop

theorem CallFine.shrinks {s s' : State} (hs : Shrinks s s') (hlatest : s.Latest) {pc : CallPC}
    (h : CallFine s pc) : CallFine s' pc := by
  unfold CallFine at h ⊢
  split at h
  next ticket earlier =>
    obtain ⟨hticket, hbound, hres⟩ := h
    rw [hs.launches]
    rcases hs.results with hsame | ⟨res, hflight, hgrow⟩
    · rw [hsame]
      exact ⟨hticket, hbound, hres⟩
    · rw [hgrow, List.length_append, List.length_singleton]
      refine ⟨by omega, hbound, fun id hid k hk => ?_⟩
      rcases Program.getElem?_snoc_cases hid with hold | ⟨-, rfl⟩
      · exact hres id hold k hk
      · -- the flight ends now: it holds a VM of the last launch
        exact last_mem_drop (hbound k hk) (hlatest id (Or.inr (Or.inr (Or.inr (Or.inr hflight)))))
  next => rwa [hs.launches]
  next => trivial

theorem CallFine.launch (id : VMID) {s s' : State} (hl : s'.launches = s.launches ++ [id])
    (hr : s'.results = s.results) {pc : CallPC} (h : CallFine s pc) : CallFine s' pc := by
  have hmono : ∀ x k, x ∈ s.launches.drop k → x ∈ s'.launches.drop k := by
    intro x k hx
    rw [hl, List.drop_append]
    exact List.mem_append_left _ hx
  unfold CallFine at h ⊢
  split at h
  next ticket earlier =>
    obtain ⟨hticket, hbound, hres⟩ := h
    rw [hr]
    refine ⟨hticket, fun k hk => ?_, fun x hx k hk => hmono x k (hres x hx k hk)⟩
    have := hbound k hk
    rw [hl, List.length_append]
    omega
  next => exact fun k hk => hmono _ k (h k hk)
  next => trivial

/- A step that launches nothing, by a thread that is not about to launch after it. -/
theorem Inv.shrinks {c : Config State Thread} {s' : State} {i : ℕ} {t' : Thread} (hc : Inv c)
    (hs : Shrinks c.shared s') (ht' : ∀ id, t' ≠ .fresh id .launch)
    (hcall : ∀ pc, t' = .call pc → CallFine s' pc) : Inv ⟨s', c.threads.set i t'⟩ := by
  have hold : ∀ (j : ℕ) (id : VMID), (c.threads.set i t')[j]? = some (.fresh id .launch) →
      c.threads[j]? = some (.fresh id .launch) := by
    intro j id hj
    rcases Program.getElem?_set_cases hj with ⟨-, h⟩ | ⟨-, h⟩
    · exact absurd h.symm (ht' id)
    · exact h
  refine ⟨fun j j' id id' hj hj' => hc.one j j' id id' (hold j id hj) (hold j' id' hj'),
    fun j id hj x hx => hc.pending j id (hold j id hj) x (hs.holds x hx), ?_, ?_, ?_⟩
  · intro x hx y hy
    rw [hs.launches] at hy
    exact hc.latest x (hs.holds x hx) y hy
  · intro k hk
    rw [hs.completed] at hk
    rw [hs.launches]
    exact hc.bound k hk
  · intro j pc hj
    rcases Program.getElem?_set_cases hj with ⟨-, h⟩ | ⟨-, h⟩
    · exact hcall pc h.symm
    · exact (hc.calls j pc h).shrinks hs hc.latest

/- A bring-up whose invalidation is clean is the only one about to launch, and nothing is left of
the VMs before it. -/
theorem Inv.invalidate {c : Config State Thread} {i : ℕ} {id : VMID} {r : Reply} (hc : Inv c)
    (hremoved : r.lands = true ∨ c.shared.baseline = none) (hflight : c.shared.flight = none)
    (hlive : c.shared.live = []) (halone : ∀ t ∈ c.threads, t.isLaunching = false) :
    Inv ⟨c.shared.removeBaseline r, c.threads.set i (.fresh id .launch)⟩ := by
  have hs := removeBaseline_shrinks c.shared r
  have hnone : ∀ x, ¬(c.shared.removeBaseline r).Holds x := by
    have hbase : (c.shared.removeBaseline r).baseline = none := by
      unfold State.removeBaseline
      split
      next => rfl
      next hr => exact hremoved.resolve_left hr
    have hsame : (c.shared.removeBaseline r).live = c.shared.live ∧
        (c.shared.removeBaseline r).flight = c.shared.flight := by
      unfold State.removeBaseline
      split <;> exact ⟨rfl, rfl⟩
    intro x hx
    unfold State.Holds at hx
    rw [hbase, hsame.1, hsame.2, hlive, hflight] at hx
    simp at hx
  have hwho : ∀ (j : ℕ) (id' : VMID),
      (c.threads.set i (.fresh id .launch))[j]? = some (.fresh id' .launch) → j = i := by
    intro j id' hj
    rcases Program.getElem?_set_cases hj with ⟨hji, -⟩ | ⟨-, h⟩
    · exact hji
    · cases halone _ (List.mem_of_getElem? h)
  refine ⟨fun j j' id₁ id₂ hj hj' => (hwho j id₁ hj).trans (hwho j' id₂ hj').symm,
    fun _ _ _ => hnone, fun x hx => absurd hx (hnone x), ?_, ?_⟩
  · intro k hk
    rw [hs.completed] at hk
    rw [hs.launches]
    exact hc.bound k hk
  · intro j pc hj
    rcases Program.getElem?_set_cases hj with ⟨-, h⟩ | ⟨-, h⟩
    · cases h
    · exact (hc.calls j pc h).shrinks hs hc.latest

theorem lands_of_err_isNone {r : Reply} (h : r.err.isNone = true) : r.lands = true := by
  cases r with
  | ok => rfl
  | failed | failedAfter | nameTaken => cases h

/- The launch: the new VM is the one and only thing there is to save. -/
theorem Inv.launch {c : Config State Thread} {i : ℕ} {id : VMID} {a : Answer} {s' : State}
    {pc' : FreshPC} (hc : Inv c) (ht : c.threads[i]? = some (.fresh id .launch))
    (h : stepFresh c.shared id a .launch = some (s', pc')) :
    Inv ⟨s', c.threads.set i (.fresh id pc')⟩ := by
  have hnone := hc.pending i id ht
  unfold stepFresh at h
  dsimp only at h
  split at h
  · cases h
  cases h
  have hpc : ∀ (j : ℕ) (id' : VMID),
      (c.threads.set i (.fresh id .done))[j]? ≠ some (.fresh id' .launch) := by
    intro j id' hj
    rcases Program.getElem?_set_cases hj with ⟨-, h⟩ | ⟨hji, h⟩
    · cases h
    · exact hji (hc.one j i id' id h ht)
  have hcalls : ∀ (s' : State), (∀ pc, CallFine c.shared pc → CallFine s' pc) → ∀ (j : ℕ) (pc : CallPC),
      (c.threads.set i (.fresh id .done))[j]? = some (.call pc) → CallFine s' pc := by
    intro s' hfine j pc hj
    rcases Program.getElem?_set_cases hj with ⟨-, h⟩ | ⟨-, h⟩
    · cases h
    · exact hfine pc (hc.calls j pc h)
  refine ⟨fun j j' id₁ id₂ hj => absurd hj (hpc j id₁), fun j id' hj => absurd hj (hpc j id'), ?_, ?_, ?_⟩
  · -- nothing was there before, so whatever is there now is the new VM
    intro x hx y hy
    by_cases hlands : a.reply.lands = true
    · simp only [hlands, if_true] at hx hy
      have hlast : y = id := by
        split at hy <;> simpa using hy.symm
      have hxid : x = id ∨ c.shared.Holds x := by
        unfold State.Holds at hx ⊢
        split at hx <;> simpa [or_assoc] using hx
      rw [hlast]
      exact hxid.resolve_right (hnone x)
    · simp only [hlands] at hx
      refine absurd ?_ (hnone x)
      unfold State.Holds at hx ⊢
      split at hx <;> simpa using hx
  · intro k hk
    have hlen : ∀ k ∈ c.shared.completed, k < (c.shared.launches ++ [id]).length := by
      intro k hk
      have hlt := hc.bound k hk
      rw [List.length_append]
      omega
    by_cases hlands : a.reply.lands = true
    · simp only [hlands, if_true] at hk ⊢
      split at hk
      next hok =>
        rw [if_pos hok]
        rcases List.mem_cons.mp hk with rfl | hk
        · rw [List.length_append, List.length_singleton]
          omega
        · exact hlen k hk
      next hno =>
        rw [if_neg hno]
        exact hlen k hk
    · have hno : ¬a.reply.err.isNone = true := fun hok => hlands (lands_of_err_isNone hok)
      rw [if_neg hno, if_neg hlands] at hk ⊢
      exact hc.bound k hk
  · refine hcalls _ fun pc hfine => ?_
    by_cases hlands : a.reply.lands = true
    · refine CallFine.launch id ?_ ?_ hfine
      · simp only [hlands, if_true]
        split <;> rfl
      · simp only [hlands, if_true]
        split <;> rfl
    · have hno : ¬a.reply.err.isNone = true := fun hok => hlands (lands_of_err_isNone hok)
      rw [if_neg hno, if_neg hlands]
      exact hfine

theorem next_inv {n : String} (c : Config State Thread) (e : PoolEvent Thread Answer EnvOp)
    (c' : Config State Thread) (hc : Inv c) (hg : CleanInvalidation c e)
    (h : (forks n).next c e = some c') : Inv c' := by
  cases e with
  | start t =>
    obtain ⟨he, rfl⟩ := (forks n).next_start h
    have hold : ∀ (j : ℕ) (id : VMID), (c.threads ++ [t])[j]? = some (.fresh id .launch) →
        c.threads[j]? = some (.fresh id .launch) := by
      intro j id hj
      rcases Program.getElem?_snoc_cases hj with h | ⟨-, rfl⟩
      · exact h
      · cases he
    refine ⟨fun i j id id' hi hj => hc.one i j id id' (hold i id hi) (hold j id' hj),
      fun i id hi => hc.pending i id (hold i id hi), hc.latest, hc.bound, fun i pc hi => ?_⟩
    rcases Program.getElem?_snoc_cases hi with h | ⟨-, rfl⟩
    · exact hc.calls i pc h
    · cases pc with
      | enter => trivial
      | waiting | returned | canceled => cases he
  | run i a =>
    obtain ⟨t, s', t', ht, hs, rfl⟩ := Program.ofStep_run h
    cases t with
    | fresh id pc =>
      obtain ⟨⟨s₁, pc'⟩, hstep, hr⟩ := Option.map_eq_some_iff.mp hs
      cases hr
      cases pc with
      | invalidate =>
        cases hstep
        obtain ⟨hremoved, hflight, hlive, halone⟩ := hg (by rw [ht]; rfl)
        exact hc.invalidate hremoved hflight hlive halone
      | launch => exact hc.launch ht hstep
      | done => cases hstep
    | teardown id keep pc =>
      obtain ⟨⟨s₁, pc'⟩, hstep, hr⟩ := Option.map_eq_some_iff.mp hs
      cases hr
      exact hc.shrinks (stepTeardown_shrinks hstep) (fun _ h => by cases h) (fun _ h => by cases h)
    | call pc =>
      obtain ⟨⟨s₁, pc'⟩, hstep, hr⟩ := Option.map_eq_some_iff.mp hs
      cases hr
      have hshrinks := stepCall_shrinks hstep
      refine hc.shrinks hshrinks (fun _ h => by cases h) fun pc₁ h => ?_
      cases h
      have hfine : CallFine s₁ pc := (hc.calls i pc ht).shrinks hshrinks hc.latest
      cases pc with
      | enter =>
        cases hstep
        refine ⟨Nat.le_refl _, hc.bound, fun id hid => ?_⟩
        simp at hid
      | waiting ticket earlier =>
        unfold stepCall at hstep
        dsimp only at hstep
        split at hstep
        next res hres =>
          cases hstep
          cases res with
          | error e => trivial
          | ok id => exact hfine.2.2 id hres
        next =>
          split at hstep
          · cases hstep
            trivial
          · cases hstep
      | returned earlier res => cases hstep
      | canceled => cases hstep
  | env o =>
    obtain ⟨s', hs, rfl⟩ := (forks n).next_env h
    have hshrinks := env_shrinks hs
    refine ⟨hc.one, fun i id hi x hx => hc.pending i id hi x (hshrinks.holds x hx), ?_, ?_, ?_⟩
    · intro x hx y hy
      rw [hshrinks.launches] at hy
      exact hc.latest x (hshrinks.holds x hx) y hy
    · intro k hk
      rw [hshrinks.completed] at hk
      rw [hshrinks.launches]
      exact hc.bound k hk
    · exact fun i pc hi => (hc.calls i pc hi).shrinks hshrinks hc.latest

theorem Initial.inv {c : Config State Thread} (h : Initial c) : Inv c := by
  obtain ⟨hthreads, -, -, hlaunches, hcompleted⟩ := h
  refine ⟨?_, ?_, ?_, ?_, ?_⟩
  · intro i j id id' hi
    rw [hthreads] at hi
    cases hi
  · intro i id hi
    rw [hthreads] at hi
    cases hi
  · intro x _ y hy
    rw [hlaunches] at hy
    cases hy
  · intro k hk
    rw [hcompleted] at hk
    cases hk
  · intro i pc hi
    rw [hthreads] at hi
    cases hi

/-- In a run whose invalidations are all clean, no call is given a dead lineage. -/
theorem forks_current_lineage (n : String) (c c' : Config State Thread) (hc : Initial c)
    (es : List (PoolEvent Thread Answer EnvOp))
    (hg : (forks n).machine.Guarded CleanInvalidation c es)
    (h : (forks n).machine.exec c es = some c') : CurrentLineage c' := by
  have hinv : Inv c' := (forks n).machine.exec_invariant next_inv hc.inv hg h
  intro i earlier id hi
  exact hinv.calls i _ hi

/- The VM of the name is replaced, and then a sub-agent asks for the snapshot. -/
def idle (baseline : Option VMID) : Config State Thread := ⟨⟨[], none, baseline, none, [], [], []⟩, []⟩

def okAnswer : Answer := ⟨.ok, none⟩

/-- A fresh bring-up whose removal of `fork-n` is answered by `r`, then a call. -/
def recreateThenFork (r : Reply) : List (PoolEvent Thread Answer EnvOp) :=
  [.start (.fresh "vm2" .invalidate), .run 0 ⟨r, none⟩, .run 0 okAnswer, .env (.index (some "vm2")),
    .start (.call .enter), .run 1 okAnswer, .env (.flight okAnswer)]

/-- The call saves a snapshot of its own. -/
def saveOwn : List (PoolEvent Thread Answer EnvOp) :=
  [.env (.flight okAnswer), .env (.flight okAnswer), .env (.flight okAnswer), .env (.flight okAnswer),
    .run 1 okAnswer]

theorem forks_current_after_recreate : ∃ c', (forks "vk-a").machine.exec (idle (some "vm1"))
      (recreateThenFork .ok ++ saveOwn) = some c' ∧
    c'.threads[1]? = some (.call (.returned [0] (.ok "vm2"))) ∧ CurrentLineage c' := by
  have hrun : ((forks "vk-a").machine.exec (idle (some "vm1"))
      (recreateThenFork .ok ++ saveOwn)).map (fun c => c.threads[1]?) =
      some (some (.call (.returned [0] (.ok "vm2")))) := by decide +kernel
  obtain ⟨c', hc', ht⟩ := Option.map_eq_some_iff.mp hrun
  refine ⟨c', hc', ht, ?_⟩
  exact forks_current_lineage "vk-a" (idle (some "vm1")) c' ⟨rfl, rfl, rfl, rfl, rfl⟩ _
    (by decide +kernel) hc'

/- The removal fails, the bring-up boots all the same, and the snapshot of the dead VM is found. -/
theorem forks_stale_after_failed_removal :
    ¬∀ (n : String) (c c' : Config State Thread) (es : List (PoolEvent Thread Answer EnvOp)),
      Initial c → (forks n).machine.exec c es = some c' → CurrentLineage c' := by
  intro h
  have hrun : ((forks "vk-a").machine.exec (idle (some "vm1"))
      (recreateThenFork (.failed "timeout") ++ [.env (.flight okAnswer), .run 1 okAnswer])).map
      (fun c => (c.threads[1]?, c.shared.launches)) =
      some (some (.call (.returned [0] (.ok "vm1"))), ["vm2"]) := by decide +kernel
  obtain ⟨c', hc', ht⟩ := Option.map_eq_some_iff.mp hrun
  have hcall : c'.threads[1]? = some (.call (.returned [0] (.ok "vm1"))) := congrArg Prod.fst ht
  have hlaunches : c'.shared.launches = ["vm2"] := congrArg Prod.snd ht
  have hin := h "vk-a" (idle (some "vm1")) c' _ ⟨rfl, rfl, rfl, rfl, rfl⟩ hc' 1 [0] "vm1" hcall 0
    (List.mem_singleton_self 0)
  rw [hlaunches] at hin
  revert hin
  decide

end VkCocoon.Fork
