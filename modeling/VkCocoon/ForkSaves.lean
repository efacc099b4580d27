import VkCocoon.ForkLineage
import VkCocoon.Node
import VkCocoon.SnapshotSave

/-!
# A save at three grains

`SnapshotSave` is a sequence of commands with their texts in `VkCocoon.Save`, a sequence of points in
the flight of one name in `VkCocoon.Fork`, and a single call in the world of a node. What the
commands leave under the name is what the single call leaves for some reply, and a step of the
node's flight is a run of the flight of its name.
-/

namespace VkCocoon
open Lib

/-! ### From the commands to the call -/

namespace Save

def Store.HeldBy (name vmID : Text) (s : Store) : Prop := ∃ x, s.Has x ∧ x.name = name ∧ x.vm = vmID

/-- As `answers`, and a save that was killed has taken the name for its own VM, or not at all. -/
def owned (name : Text) : Proc.Answers Store SaveCall SaveAns := fun s q r s' =>
  answers name s q r s' ∧
    match q, r with
    | .save vmName vmID, some _ => s.Free vmName → s'.Free vmName ∨ s'.HeldBy vmName vmID
    | _, _ => True

/-- What becomes of the name, with the error of the save. -/
inductive Effect (name vmID : Text) (s s' : Store) : Option String → Prop where
  | saved (h : s'.HeldBy name vmID) : Effect name vmID s s' none
  | kept (err : String) (h : s.SameName name s') : Effect name vmID s s' (some err)
  | killed (err : String) (h : s'.HeldBy name vmID) : Effect name vmID s s' (some err)
  | cleared (err : String) (h : s'.Free name) : Effect name vmID s s' (some err)

section Effect
variable {name vmID : Text} {s : Store}

/- A command that fails on a free name, and not for the name. -/
theorem effect_of_failed {s₁ s₂ : Store} (err : String) {f : CmdFailure} (hfree : s₁.Free name)
    (h : owned name s₁ (.save name vmID) (some f) s₂) : Effect name vmID s s₂ (some err) := by
  rcases h.2 hfree with hgone | hheld
  · exact .cleared err hgone
  · exact .killed err hheld

theorem snapshotSave_effect (turns : ℕ) : (snapshotSave turns name vmID).wp (owned name)
    (fun s' r => ∀ err, r = some err → Effect name vmID s s' err) s := by
  refine Proc.wp_ask_bind.mpr fun f s₁ h₁ => ?_
  obtain ⟨-, -, hsave⟩ := h₁.1
  cases f with
  | none =>
    obtain ⟨-, x, hx, hname, hvm, -⟩ := hsave
    rintro err ⟨⟩
    exact .saved ⟨x, hx, hname, hvm⟩
  | some f =>
    cases htaken : containsAny f.out snapshotNameTaken with
    | false =>
      simp only [htaken, Bool.not_false, if_true]
      rintro err ⟨⟩
      rcases hsave with ⟨hfree, -⟩ | ⟨hsame, -⟩
      · exact effect_of_failed _ hfree h₁
      · exact .kept _ hsame
    | true =>
      simp only [htaken, Bool.not_true, Bool.false_eq_true, if_false]
      obtain ⟨hsame, holder, hhas, hname, hrejects⟩ := rejected_of_taken htaken hsave
      have href := refersTo_holder (s.proper holder hhas) hname hrejects
      have hrm : (removeStaleSnapshot turns _).wp (owned name) (Settled name holder s₁) s₁ :=
        Proc.wp_anti (fun _ _ _ _ h => h.1)
          (removeStaleSnapshot_wp href ((hsame holder hname).mp hhas) turns)
      refine Proc.wp_seq hrm fun s₂ r hsettled => ?_
      cases r with
      | none => exact nofun
      | some r =>
        cases r with
        | some e =>
          rintro err ⟨⟩
          exact .kept _ fun x hx => (hsame x hx).trans (hsettled.same nofun x hx)
        | none =>
          obtain ⟨-, hfree⟩ := hsettled.gone rfl
          refine Proc.wp_ask_bind.mpr fun f' s₃ h₃ => ?_
          cases f' with
          | some f' =>
            rintro err ⟨⟩
            exact effect_of_failed _ hfree h₃
          | none =>
            obtain ⟨-, -, -, x, hx, hname', hvm, -⟩ := h₃.1
            rintro err ⟨⟩
            exact .saved ⟨x, hx, hname', hvm⟩

end Effect

/-- The store has under the name what the world has there. -/
def Store.Shows (s : Store) (w : World) (name : String) : Prop :=
  ∀ vm, s.HeldBy name.toList vm ↔ (w.localSnapshots.get name).map (·.vm.toList) = some vm

theorem Store.HeldBy.shows {s : Store} {w : World} {name id : String}
    (h : s.HeldBy name.toList id.toList) (hw : (w.localSnapshots.get name).map (·.vm) = some id) :
    s.Shows w name := by
  obtain ⟨x, hx, hname, hvm⟩ := h
  obtain ⟨snap, hsnap, rfl⟩ := Option.map_eq_some_iff.mp hw
  intro vm
  rw [hsnap, Option.map_some, Option.some.injEq]
  constructor
  · rintro ⟨y, hy, hyname, rfl⟩
    rw [s.names y hy x hx (hyname.trans hname.symm), hvm]
  · rintro rfl
    exact ⟨x, hx, hname, hvm⟩

/-- What a save leaves under its name is what `Runtime.SnapshotSave` of the world leaves there for some
reply, and one fails if the other does. -/
theorem save_is_world_save {w : World} {name id : String} {s s' : Store} {err : Option String} {turns : ℕ}
    (hs : s.Shows w name) (hid : w.runtime.has id = true)
    (h : Proc.Exec (owned name.toList) s (snapshotSave turns name.toList id.toList) s' (some err)) :
    ∃ reply, s'.Shows (w.snapshotSave name id reply).1 name ∧
      ((w.snapshotSave name id reply).2 = none ↔ err = none) := by
  have heffect := h.post (snapshotSave_effect turns) err rfl
  cases heffect with
  | saved hheld =>
    refine ⟨.ok, hheld.shows ?_, ?_⟩
    · simp [World.snapshotSave, hid, Reply.lands]
    · simp [World.snapshotSave, hid, Reply.err]
  | kept e hsame =>
    refine ⟨.failed e, fun vm => ?_, ?_⟩
    · have hworld : (w.snapshotSave name id (.failed e)).1 = w := by
        simp [World.snapshotSave, hid, Reply.lands]
      rw [hworld, ← hs vm]
      constructor
      · rintro ⟨x, hx, hname, hvm⟩
        exact ⟨x, (hsame x hname).mpr hx, hname, hvm⟩
      · rintro ⟨x, hx, hname, hvm⟩
        exact ⟨x, (hsame x hname).mp hx, hname, hvm⟩
    · simp [World.snapshotSave, hid, Reply.err]
  | killed e hheld =>
    refine ⟨.failedAfter e, hheld.shows ?_, ?_⟩
    · simp [World.snapshotSave, hid, Reply.lands]
    · simp [World.snapshotSave, hid, Reply.err]
  | cleared e hfree =>
    refine ⟨.nameTaken, fun vm => ?_, ?_⟩
    · simp only [World.snapshotSave, if_true, GoMap.get_del_self, Option.map_none, reduceCtorEq, iff_false]
      rintro ⟨x, hx, hname, -⟩
      exact hfree x hname hx
    · simp [World.snapshotSave, Reply.err]

end Save

/-! ### From the call to the points of the flight -/

namespace Fork

def flight (n : String) : Machine State Answer := ⟨fun s a => s.stepFlight n a⟩

/-- The flight of the node alone. -/
def nodeFlight : Machine (World × ForkFlight) VkCocoon.Answer :=
  ⟨fun s a => (s.2.step s.1 a).map fun r => (r.1, { s.2 with pc := r.2 })⟩

/-- The state of the name `n` in the world. -/
structure State.Shows (s : State) (n : String) (w : World) : Prop where
  live : ∀ id, id ∈ s.live ↔ ∃ v, w.runtime.get id = some v ∧ v.name = n
  indexed : s.indexed = (w.tables.vmsByName.get n).map (·.id)
  baseline : s.baseline = (w.localSnapshots.get (forkSnapshotName n)).map (·.vm)

/-- The points of the node's flight. -/
inductive FlightPC.At : FlightPC → ForkPC → Prop where
  | check : At .check .check
  | lookup : At .lookup .lookup
  | inspect : At .inspect .inspect
  | save (id : VMID) : At (.save id) (.save id)
  | ending (res : Except String VMID) : At (.ending res) .done

section Flight
variable {n : String} {w : World} {s : State}

/- A step that is about the snapshot of the name only. -/
theorem State.Shows.step {s' : State} {w' : World} (h : s.Shows n w) (hruntime : w'.runtime = w.runtime)
    (htables : w'.tables = w.tables) (hlive : s'.live = s.live) (hindexed : s'.indexed = s.indexed)
    (hbaseline : s'.baseline = (w'.localSnapshots.get (forkSnapshotName n)).map (·.vm)) :
    s'.Shows n w' := by
  refine ⟨fun id => ?_, ?_, hbaseline⟩
  · rw [hlive, hruntime]
    exact h.live id
  · rw [hindexed, htables]
    exact h.indexed

theorem State.Shows.live_iff (h : s.Shows n w) {id : VMID}
    (hname : ∀ v, w.runtime.get id = some v → v.name = n) : id ∈ s.live ↔ w.runtime.has id = true := by
  rw [h.live id, GoMap.has_iff]
  exact exists_congr fun v => and_iff_left_of_imp (hname v)

/-- A run of the flight to its end that leaves this baseline. -/
def Ends (n : String) (s : State) (as : List Answer) (baseline : Option VMID) : Prop :=
  ∃ s' res, (flight n).exec s as = some s' ∧ s'.flight = some (.ending res) ∧ s'.live = s.live ∧
    s'.indexed = s.indexed ∧ s'.baseline = baseline

theorem Ends.cons {a : Answer} {as : List Answer} {pc : FlightPC} {baseline : Option VMID}
    (h : s.stepFlight n a = some { s with flight := some pc })
    (hrest : Ends n { s with flight := some pc } as baseline) : Ends n s (a :: as) baseline := by
  obtain ⟨s', res, hexec, hend⟩ := hrest
  exact ⟨s', res, (flight n).exec_cons_some.mpr ⟨_, h, hexec⟩, hend⟩

/- The holder of the name is evicted, and the save is made again. -/
theorem evict_ends {id : VMID} (hpc : s.flight = some (.evict id)) (hin : id ∈ s.live) (r : Reply) :
    Ends n s [⟨.ok, none⟩, ⟨.ok, none⟩, ⟨r, none⟩] (if r.lands then some id else none) := by
  cases r with
  | ok | failed e | failedAfter e | nameTaken =>
    simp [Ends, flight, Machine.exec, State.stepFlight, hpc, State.removeBaseline, Reply.lands, Reply.err, hin,
      State.finishSave, State.endFlight, State.failSave]

theorem evict_ends_gone {id : VMID} (hpc : s.flight = some (.evict id)) (hout : id ∉ s.live) :
    Ends n s [⟨.ok, none⟩, ⟨.ok, none⟩] none := by
  simp [Ends, flight, Machine.exec, State.stepFlight, hpc, State.removeBaseline, Reply.lands, Reply.err, hout,
    State.failSave, State.endFlight]

/- The command fails without effect, or the name is free. -/
theorem saving_ends {id : VMID} (hpc : s.flight = some (.saving id)) {r : Reply} (hr : r ≠ .nameTaken)
    (hfree : r.lands = true → s.baseline = none) :
    Ends n s [⟨r, none⟩] (if r.lands then some id else s.baseline) := by
  cases r with
  | nameTaken => exact absurd rfl hr
  | ok | failedAfter e =>
    simp [Ends, flight, Machine.exec, State.stepFlight, hpc, State.finishSave, hfree rfl, Reply.lands,
      State.endFlight, State.failSave]
  | failed e =>
    cases hb : s.baseline <;>
      simp [Ends, flight, Machine.exec, State.stepFlight, hpc, State.finishSave, hb, Reply.lands, State.endFlight,
        State.failSave]

/- The name of the snapshot after the save of the node. -/
theorem snapshotSave_get (w : World) (name : String) (id : VMID) (r : Reply) :
    ((w.snapshotSave name id r).1.localSnapshots.get name).map (·.vm) =
      if r = .nameTaken then none
      else if w.runtime.has id = true ∧ r.lands = true then some id
      else (w.localSnapshots.get name).map (·.vm) := by
  unfold World.snapshotSave
  split
  · simp
  · split
    next hhas =>
      split
      next hlands => simp [hhas, hlands]
      next hlands => simp [hlands]
    next hhas => simp [hhas]

/-- The save of the node is a run of the flight of the name from `save` to its end. -/
theorem save_run {id : VMID} (hs : s.Shows n w) (hpc : s.flight = some (.save id))
    (hname : ∀ v, w.runtime.get id = some v → v.name = n) (r : Reply) :
    ∃ as, Ends n s as (((w.snapshotSave (forkSnapshotName n) id r).1.localSnapshots.get
      (forkSnapshotName n)).map (·.vm)) := by
  rw [snapshotSave_get, ← hs.baseline]
  simp only [← hs.live_iff hname]
  by_cases htaken : r = .nameTaken
  · have hevict : s.stepFlight n ⟨.nameTaken, none⟩ = some { s with flight := some (.evict id) } := by
      simp [State.stepFlight, hpc]
    rw [if_pos htaken]
    by_cases hin : id ∈ s.live
    · exact ⟨_, .cons hevict (evict_ends (s := { s with flight := some (.evict id) }) rfl hin .nameTaken)⟩
    · exact ⟨_, .cons hevict (evict_ends_gone (s := { s with flight := some (.evict id) }) rfl hin)⟩
  · rw [if_neg htaken]
    by_cases hin : id ∈ s.live
    · have hsaving : s.stepFlight n ⟨.ok, none⟩ = some { s with flight := some (.saving id) } := by
        simp [State.stepFlight, hpc, hin]
      by_cases hheld : r.lands = true ∧ s.baseline.isSome = true
      · -- the command finds the name taken, and the second one has the reply
        obtain ⟨x, hx⟩ := Option.isSome_iff_exists.mp hheld.2
        have hevict : State.stepFlight { s with flight := some (.saving id) } n ⟨.ok, none⟩ =
            some { s with flight := some (.evict id) } := by
          simp [State.stepFlight, State.finishSave, hx]
        have hends := evict_ends (n := n) (s := { s with flight := some (.evict id) }) rfl hin r
        rw [if_pos hheld.1] at hends
        rw [if_pos ⟨hin, hheld.1⟩]
        exact ⟨_, .cons hsaving (.cons hevict hends)⟩
      · have hfree : r.lands = true → s.baseline = none := by
          intro hlands
          rw [← Option.not_isSome_iff_eq_none]
          exact fun hsome => hheld ⟨hlands, hsome⟩
        have hends := saving_ends (n := n) (s := { s with flight := some (.saving id) }) rfl htaken hfree
        simp only [hin, true_and]
        exact ⟨_, .cons hsaving hends⟩
    · refine ⟨[⟨.ok, none⟩], ?_⟩
      simp [Ends, flight, Machine.exec, State.stepFlight, hpc, hin, State.failSave, State.endFlight]

theorem inspectName_live {pick : ℕ} {id : VMID} (hs : s.Shows n w) (h : w.inspectName n pick = some id) :
    id ∈ s.live := by
  obtain ⟨⟨k, v⟩, hget, rfl⟩ := Option.map_eq_some_iff.mp h
  obtain ⟨hmem, hname⟩ := List.mem_filter.mp (List.mem_of_getElem? hget)
  exact (hs.live k).mpr ⟨v, (GoMap.mem_toList _ _ _).mp hmem, beq_iff_eq.mp hname⟩

/-- A step of the node's flight is a run of the flight of its name. The VM it saves is one of that
name. -/
theorem flight_step_run {f : ForkFlight} {a : VkCocoon.Answer} {w' : World} {pc' : ForkPC} {pc : FlightPC}
    (hs : s.Shows f.source w) (hpc : s.flight = some pc) (hat : pc.At f.pc)
    (hname : ∀ id, f.pc = .save id → ∀ v, w.runtime.get id = some v → v.name = f.source)
    (h : f.step w a = some (w', pc')) :
    (flight f.source).Reaches s fun s' => s'.Shows f.source w' ∧ ∃ next, s'.flight = some next ∧ next.At pc' := by
  -- one step of the name's flight, to a point of its own
  have hone : ∀ (x : Answer) (next : FlightPC),
      s.stepFlight f.source x = some { s with flight := some next } → next.At pc' → w' = w →
      (flight f.source).Reaches s fun s' =>
        s'.Shows f.source w' ∧ ∃ next, s'.flight = some next ∧ next.At pc' := by
    rintro x next hstep hnext rfl
    exact Machine.reaches_step x hstep ⟨hs.step rfl rfl rfl rfl hs.baseline, next, rfl, hnext⟩
  unfold ForkFlight.step at h
  generalize hf : f.pc = point at hat h
  cases hat with
  | check =>
    simp only [Option.some.injEq, Prod.mk.injEq] at h
    obtain ⟨hw, hnext⟩ := h
    cases hb : s.baseline with
    | none =>
      have hnone : w.localSnapshots.has (forkSnapshotName f.source) = false := by
        rw [GoMap.not_has_iff, ← Option.map_eq_none_iff, ← hs.baseline, hb]
      rw [hnone, Bool.false_and, if_neg Bool.false_ne_true] at hnext
      subst hnext
      refine hone ⟨a.reply, none⟩ .lookup ?_ .lookup hw.symm
      simp [State.stepFlight, hpc, hb]
    | some id =>
      have hsome : w.localSnapshots.has (forkSnapshotName f.source) = true := by
        unfold GoMap.has
        rw [← Option.isSome_map, ← hs.baseline, hb]
        rfl
      rw [hsome, Bool.true_and] at hnext
      cases hr : a.reply with
      | ok =>
        rw [hr] at hnext
        subst hnext
        refine hone ⟨.ok, none⟩ (.ending (.ok id)) ?_ (.ending _) hw.symm
        simp [State.stepFlight, hpc, hb, State.endFlight]
      | failed e | failedAfter e | nameTaken =>
        rw [hr] at hnext
        subst hnext
        refine hone ⟨a.reply, none⟩ .lookup ?_ .lookup hw.symm
        simp [State.stepFlight, hpc, hb, hr]
  | lookup =>
    simp only [Option.some.injEq, Prod.mk.injEq] at h
    obtain ⟨hw, hnext⟩ := h
    have hindexed := hs.indexed
    cases hv : w.tables.vmsByName.get f.source with
    | none =>
      rw [hv] at hindexed hnext
      subst hnext
      refine hone ⟨.ok, none⟩ .inspect ?_ .inspect hw.symm
      simp [State.stepFlight, hpc, hindexed]
    | some v =>
      rw [hv] at hindexed hnext
      subst hnext
      refine hone ⟨.ok, none⟩ (.save v.id) ?_ (.save v.id) hw.symm
      simp [State.stepFlight, hpc, hindexed]
  | inspect =>
    simp only [Option.some.injEq, Prod.mk.injEq] at h
    obtain ⟨hw, hnext⟩ := h
    cases he : a.reply.err with
    | some e =>
      rw [he] at hnext
      subst hnext
      refine hone ⟨a.reply, none⟩ (.ending (.error s!"inspect fork source vm {f.source}: {e}")) ?_ (.ending _)
        hw.symm
      simp only [State.stepFlight, hpc, he]
      rfl
    | none =>
      cases hfound : w.inspectName f.source a.pick with
      | none =>
        rw [he, hfound] at hnext
        subst hnext
        refine hone ⟨a.reply, none⟩ (.ending (.error s!"inspect fork source vm {f.source}: vm not found")) ?_
          (.ending _) hw.symm
        simp only [State.stepFlight, hpc, he]
        rfl
      | some id =>
        rw [he, hfound] at hnext
        subst hnext
        refine hone ⟨a.reply, some id⟩ (.save id) ?_ (.save id) hw.symm
        simp [State.stepFlight, hpc, he, inspectName_live hs hfound]
  | save id =>
    simp only [Option.some.injEq, Prod.mk.injEq] at h
    obtain ⟨rfl, rfl⟩ := h
    obtain ⟨as, s', res, hexec, hend, hlive, hindexed, hbaseline⟩ :=
      save_run hs hpc (hname id hf) a.reply
    exact ⟨as, s', hexec, hs.step (w.snapshotSave_runtime id _ a.reply) (w.snapshotSave_tables id _ a.reply)
      hlive hindexed hbaseline, _, hend, .ending _⟩
  | ending res => cases h

/-- A run of the node's flight is one of the flight of its name. -/
theorem flight_run {f f' : ForkFlight} {as : List VkCocoon.Answer} {w' : World} {pc : FlightPC}
    (hs : s.Shows f.source w) (hpc : s.flight = some pc) (hat : pc.At f.pc)
    (hname : nodeFlight.Guarded (fun c _ => ∀ id, c.2.pc = .save id →
      ∀ v, c.1.runtime.get id = some v → v.name = f.source) (w, f) as)
    (h : nodeFlight.exec (w, f) as = some (w', f')) :
    (flight f.source).Reaches s fun s' => s'.Shows f.source w' ∧ ∃ next, s'.flight = some next ∧ next.At f'.pc := by
  let R : World × ForkFlight → State → Prop := fun c s =>
    c.2.source = f.source ∧ s.Shows f.source c.1 ∧ ∃ pc, s.flight = some pc ∧ pc.At c.2.pc
  have hsim : ∀ c a c' s, R c s → (∀ id, c.2.pc = .save id →
      ∀ v, c.1.runtime.get id = some v → v.name = f.source) → nodeFlight.step c a = some c' →
      (flight f.source).Reaches s (R c') := by
    rintro ⟨w₁, f₁⟩ a c' s ⟨hsource, hs₁, pc, hpc₁, hat₁⟩ hname₁ hstep
    obtain ⟨⟨w₂, pc₂⟩, hflight, rfl⟩ := Option.map_eq_some_iff.mp hstep
    dsimp only at hsource hs₁ hat₁ hname₁
    rw [← hsource] at hs₁ hname₁ ⊢
    exact (flight_step_run hs₁ hpc₁ hat₁ hname₁ hflight).mono fun _ h' =>
      ⟨hsource, hsource ▸ h'.1, h'.2⟩
  have hstart : R (w, f) s := ⟨rfl, hs, pc, hpc, hat⟩
  exact (nodeFlight.exec_simulates hsim hstart hname h).mono fun _ h' => h'.2

end Flight

end Fork

end VkCocoon
