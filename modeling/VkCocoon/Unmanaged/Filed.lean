import VkCocoon.Unmanaged.Threads

/-!
# The records of the runtime

A step of a thread leaves the records of the runtime under their IDs, and the unmanaged VM under the
name its pod has for it.
-/

namespace VkCocoon
open Lib Tables

section Steps
variable {u : Pod} {w w' : World} {a : Answer}

theorem World.Filed.of_eq (h : w.Filed u) (hr : w'.runtime = w.runtime) : w'.Filed u := by
  intro id v hv
  rw [hr] at hv
  exact h id v hv

theorem World.Filed.set (h : w.Filed u) {id : VMID} {v : VM}
    (hv : v.id = id ∧ (id = u.vmid → v.name = u.spec.vmName))
    (hr : w'.runtime = w.runtime.set id v) : w'.Filed u := by
  intro x y hy
  rw [hr, GoMap.get_set] at hy
  split at hy
  next hx =>
    cases hy
    rw [hx]
    exact hv
  next => exact h x y hy

theorem World.Filed.del (h : w.Filed u) {id : VMID} (hr : w'.runtime = w.runtime.del id) : w'.Filed u := by
  intro x y hy
  rw [hr, GoMap.get_del] at hy
  split at hy
  · cases hy
  · exact h x y hy

theorem World.Filed.remove (h : w.Filed u) (id : VMID) (r : Reply) : (w.remove id r).1.Filed u := by
  unfold World.remove
  dsimp only
  split
  · exact h.del rfl
  · exact h

theorem World.Filed.launch (h : w.Filed u) {v : VM} (hv : v.id ≠ u.vmid) (r : Reply) :
    (w.launch v r).1.Filed u := by
  unfold World.launch
  dsimp only
  split
  · exact h.set ⟨rfl, fun hid => absurd hid hv⟩ rfl
  · exact h

theorem World.Filed.start (h : w.Filed u) (id : VMID) (r : Reply) : (w.start id r).1.Filed u := by
  unfold World.start
  split
  · exact h
  next v hv =>
    dsimp only
    split
    · refine h.set ?_ rfl
      exact h id v hv
    · exact h

theorem World.Filed.netResize (h : w.Filed u) (id : VMID) (nics : List NetworkConfig) (r : Reply) :
    (w.netResize id nics r).1.Filed u := by
  unfold World.netResize
  split
  · exact h
  next v hv =>
    dsimp only
    split
    · refine h.set ?_ rfl
      exact h id v hv
    · exact h

theorem World.Filed.snapshotSave (h : w.Filed u) (name : String) (id : VMID) (r : Reply) :
    (w.snapshotSave name id r).1.Filed u := by
  refine h.of_eq ?_
  unfold World.snapshotSave
  repeat' split
  all_goals rfl

theorem World.Filed.pushSnapshot (h : w.Filed u) (name repo : String) (r : Reply) :
    (w.pushSnapshot name repo r).1.Filed u := by
  refine h.of_eq ?_
  unfold World.pushSnapshot
  repeat' split
  all_goals rfl

theorem World.Filed.deletePod (h : w.Filed u) (key : Key) (uid : UID) (r : Reply) :
    (w.deletePod key uid r).1.Filed u := by
  refine h.of_eq ?_
  unfold World.deletePod
  repeat' split
  all_goals rfl

theorem World.Filed.deleteManifest (h : w.Filed u) (repo : String) (r : Reply) :
    (w.deleteManifest repo r).1.Filed u := by
  refine h.of_eq ?_
  unfold World.deleteManifest
  dsimp only
  split <;> rfl

theorem World.Filed.snapshotRemove (h : w.Filed u) (name : String) (r : Reply) :
    (w.snapshotRemove name r).Filed u := by
  refine h.of_eq ?_
  unfold World.snapshotRemove
  split <;> rfl

theorem World.Filed.recheck (h : w.Filed u) (id : VMID) : (w.scheduleDeferredRecheck id).1.Filed u := by
  unfold World.scheduleDeferredRecheck
  split <;> exact h

theorem Watch.step_filed {role : Role} {pc pc' : GonePC} {new : List Watch} (hf : w.Filed u)
    (h : Watch.step w role a pc = some (w', pc', new)) : w'.Filed u := by
  cases pc with
  | lookup id name =>
    obtain ⟨m, -, hm⟩ := Option.map_eq_some_iff.mp h
    cases m <;> cases hm <;> exact hf
  | inspect m attempt | reinspect m | liftInspect m v | claim m v site =>
    simp only [Watch.step] at h
    split at h <;> cases h <;> exact hf
  | start m inspected =>
    simp only [Watch.step] at h
    have hs := hf.start m.v.id a.reply
    split at h <;> next heq => cases h; rw [heq] at hs; exact hs
  | remove m v =>
    simp only [Watch.step] at h
    have hs := hf.remove v.id a.reply
    split at h <;> next heq => cases h; rw [heq] at hs; exact hs
  | deletePod m v site attempt =>
    simp only [Watch.step] at h
    have hs := hf.deletePod m.key m.pod.uid a.reply
    split at h <;> next heq => cases h; rw [heq] at hs; exact hs
  | schedule m v site =>
    cases h
    exact hf.recheck v.id
  | liftRead m =>
    simp only [Watch.step] at h
    split at h
    · cases h
      exact hf
    · split at h <;> cases h <;> exact hf
  | sleep | leave =>
    cases role <;> cases h
    exact hf
  | look =>
    cases role with
    | event => cases h
    | recheck vmID =>
      obtain ⟨m, -, hm⟩ := Option.map_eq_some_iff.mp h
      cases m <;> cases hm <;> exact hf
  | recheckInspect m =>
    cases role with
    | event => cases h
    | recheck vmID =>
      simp only [Watch.step] at h
      split at h <;> cases h <;> exact hf
  | done => cases h
  | _ =>
    cases h
    exact hf

theorem Hib.step_filed {h : Hib} (hf : w.Filed u) {s : World × Hib} (hs : h.step w a.reply = some s) :
    s.1.Filed u := by
  unfold Hib.step at hs
  cases hpc : h.pc with
  | dropNIC =>
    simp only [hpc] at hs
    have hn := hf.netResize h.v.id [] a.reply
    split at hs <;> next heq => cases hs; rw [heq] at hn; exact hn
  | save =>
    simp only [hpc] at hs
    have hn := hf.snapshotSave h.v.name h.v.id a.reply
    split at hs <;> next heq => cases hs; rw [heq] at hn; exact hn
  | push =>
    simp only [hpc] at hs
    have hn := hf.pushSnapshot h.v.name h.v.name a.reply
    split at hs <;> next heq => cases hs; rw [heq] at hn; exact hn
  | remove =>
    simp only [hpc] at hs
    have hn := hf.remove h.v.id a.reply
    split at hs <;> next heq => cases hs; rw [heq] at hn; exact hn
  | deleteManifest msg =>
    rw [hpc] at hs
    cases hs
    exact hf.deleteManifest h.v.name a.reply
  | addNIC msg =>
    rw [hpc] at hs
    cases hs
    exact hf.netResize h.v.id [h.nic] a.reply
  | inspectNIC | bind | stamp =>
    simp only [hpc] at hs
    split at hs <;> cases hs <;> exact hf
  | schedule | done =>
    rw [hpc] at hs
    cases hs
  | _ =>
    rw [hpc] at hs
    cases hs
    exact hf

theorem Bring.step_filed {b : Bring} (hb : b.Away u ∨ b.Home u) {pc' : BringPC}
    {new : List PodThread} (hf : w.Filed u) (h : b.step w a = some (w', pc', new)) : w'.Filed u := by
  unfold Bring.step at h
  cases hpc : b.pc with
  | apply v prev =>
    simp only [hpc] at h
    split at h
    · cases h
      exact hf
    · split at h
      · split at h <;> cases h <;> exact hf
      · cases h
        exact hf
  | bringUp restoring =>
    simp only [hpc] at h
    split at h
    · cases h
      exact hf
    next hm =>
      rcases hb with hb | hb
      · have hl := hf.launch hb.launched a.reply
        split at h <;> next heq => cases h; rw [heq] at hl; exact hl
      · simp [hb.pod.2.1] at hm
  | wakeClone prev =>
    rcases hb with hb | hb
    · simp only [hpc] at h
      have hl := hf.launch hb.launched a.reply
      split at h <;> next heq => cases h; rw [heq] at hl; exact hl
    · have hmild := hb.mild
      rw [hpc] at hmild
      cases hmild
  | resumeStart v =>
    simp only [hpc] at h
    have hs := hf.start v.id a.reply
    split at h <;> next heq => cases h; rw [heq] at hs; exact hs
  | claim | resume | classify =>
    simp only [hpc] at h
    split at h <;> cases h <;> exact hf
  | liftRead site =>
    simp only [hpc] at h
    split at h
    · cases h
      exact hf
    · split at h <;> cases h <;> exact hf
  | done =>
    rw [hpc] at h
    cases h
  | _ =>
    rw [hpc] at h
    cases h
    exact hf

theorem Job.step_filed {job : Job} {pc pc' : TailPC} (hf : w.Filed u)
    (h : job.step w a pc = some (w', pc')) : w'.Filed u := by
  cases pc with
  | exec attempt errs | sac | lookup | lease seen =>
    simp only [Job.step] at h
    split at h <;> cases h <;> exact hf
  | leave =>
    cases h
    split <;> exact hf
  | done => cases h
  | _ =>
    cases h
    exact hf

theorem ProbePC.step_filed {key : Key} {pc pc' : ProbePC} (hf : w.Filed u)
    (h : pc.step w a key = some (w', pc')) : w'.Filed u := by
  cases pc with
  | lease seen =>
    simp only [ProbePC.step] at h
    split at h <;> cases h <;> exact hf
  | done => cases h
  | _ =>
    cases h
    exact hf

theorem SnapshotCall.step_filed {s : SnapshotCall} (hf : w.Filed u) : (s.step w a).1.Filed u := by
  have hs := hf.snapshotSave s.localName s.v.id a.reply
  unfold SnapshotCall.step
  split
  · exact hf
  · split <;> next heq => rw [heq] at hs; exact hs
  · exact hf
  · exact hf.snapshotRemove s.localName a.reply
  · exact hf

theorem ForkFlight.step_clean (ht : Kept u w.tables) (hf : w.Filed u) {f : ForkFlight}
    (h : (NodeThread.fork f).Clean u) {pc' : ForkPC} (hs : f.step w a = some (w', pc')) :
    w'.Filed u ∧ (NodeThread.fork { f with pc := pc' }).Clean u := by
  obtain ⟨hsource, -⟩ := h
  unfold ForkFlight.step at hs
  cases hpc : f.pc with
  | check =>
    rw [hpc] at hs
    cases hs
    refine ⟨hf, hsource, ?_⟩
    dsimp only
    split <;> exact ForkPC.noConfusion
  | lookup =>
    rw [hpc] at hs
    cases hs
    refine ⟨hf, hsource, ?_⟩
    cases hget : w.tables.vmsByName.get f.source with
    | none => exact ForkPC.noConfusion
    | some v =>
      intro hsave
      exact hsource (ht.named _ _ hget (ForkPC.save.inj hsave)).1
  | inspect =>
    rw [hpc] at hs
    cases hs
    refine ⟨hf, hsource, ?_⟩
    dsimp only
    split
    · exact ForkPC.noConfusion
    · cases hfound : w.inspectName f.source a.pick with
      | none => exact ForkPC.noConfusion
      | some id =>
        intro hsave
        obtain ⟨kv, hkv, hid⟩ := Option.map_eq_some_iff.mp hfound
        obtain ⟨hmem, hname⟩ := List.mem_filter.mp (List.mem_of_getElem? hkv)
        have hget := (GoMap.mem_toList _ kv.1 kv.2).mp hmem
        have hv := (hf _ _ hget).2 (hid.trans (ForkPC.save.inj hsave))
        exact hsource ((beq_iff_eq.mp hname).symm.trans hv)
  | save id =>
    rw [hpc] at hs
    cases hs
    exact ⟨hf.snapshotSave _ id a.reply, hsource, ForkPC.noConfusion⟩
  | done =>
    rw [hpc] at hs
    cases hs

theorem Delete.step_filed {d : Delete} {pc' : DeletePC} (hf : w.Filed u)
    (h : d.step w a = some (w', pc')) : w'.Filed u := by
  unfold Delete.step at h
  cases hpc : d.pc with
  | claim =>
    simp only [hpc] at h
    split at h <;> cases h <;> exact hf
  | save v =>
    simp only [hpc] at h
    have hs := hf.snapshotSave v.name v.id a.reply
    split at h <;> next heq => cases h; rw [heq] at hs; exact hs
  | remove v =>
    simp only [hpc] at h
    have hs := hf.remove v.id a.reply
    split at h <;> next heq => cases h; rw [heq] at hs; exact hs
  | dropSnapshot name =>
    rw [hpc] at h
    cases h
    exact hf.snapshotRemove name a.reply
  | dropFork name =>
    rw [hpc] at h
    cases h
    exact hf.snapshotRemove (forkSnapshotName name) a.reply
  | done =>
    rw [hpc] at h
    cases h
  | _ =>
    rw [hpc] at h
    cases h
    exact hf

end Steps
end VkCocoon
