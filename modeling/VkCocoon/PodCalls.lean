import VkCocoon.Bringup
import VkCocoon.BusyWait

/-!
# CreatePod at two grains

`Bring` has `CreatePod` and `UpdatePod` with all they do to the node. `Creation` is `CreatePod` next to
the watcher of its name. A run of the first is a run of the second: the sections they enter are the
same, and what the second leaves out of the node is not in the tables it looks at.
-/

namespace VkCocoon
open Lib Tables

/-- The call alone. What it starts runs on its own. -/
def bringCall : Machine (World × Bring) Answer :=
  ⟨fun s a => (s.2.step s.1 a).map fun r => (r.1, { s.2 with pc := r.2.1 })⟩

/-- The VM is bound. -/
def BringPC.hasBound : BringPC → Bool
  | .owed _ | .dispatch _ _ | .restore _ => true
  | _ => false

theorem hasBound_bound (v : VM) (site : BindSite) : (site.bound v).hasBound = true := by
  cases site <;> rfl

theorem bringCall_step {w w' : World} {b b' : Bring} {a : Answer}
    (h : bringCall.step (w, b) a = some (w', b')) :
    ∃ pc new, b.step w a = some (w', pc, new) ∧ b' = { b with pc := pc } := by
  obtain ⟨⟨w₁, pc, new⟩, hstep, heq⟩ := Option.map_eq_some_iff.mp h
  cases heq
  exact ⟨pc, new, hstep, rfl⟩

/- One step, and the rest of the run. -/
theorem bringCall_cons {w w₁ : World} {b : Bring} {a : Answer} {pc₁ : BringPC} {new : List PodThread}
    {Q : World × Bring → Prop} (hstep : b.step w a = some (w₁, pc₁, new))
    (hrest : bringCall.Reaches (w₁, { b with pc := pc₁ }) Q) : bringCall.Reaches (w, b) Q := by
  refine Machine.reaches_cons a ?_ hrest
  simp only [bringCall, hstep, Option.map_some]

/-- `bindRuntime` at once, as startup has it, is what a call does from its bind on when nothing comes
in between. -/
theorem bindRuntime_run {w : World} {b : Bring} {v : VM} {site : BindSite} {nameTaken owned : Bool} {t : Tables}
    (a : Answer) (hpc : b.pc = .bind v site) (h : bindRuntime w.tables b.pod v nameTaken = (t, owned)) :
    bringCall.Reaches (w, b) fun s =>
      s = ({ w with tables := t }, { b with pc := if owned then site.bound v else .done }) := by
  unfold bindRuntime at h
  cases htrack : w.tables.trackPodIncarnation b.pod v with
  | mk t₁ tracked =>
    have hbind : b.step w a = some ({ w with tables := t₁ }, if tracked then .stamp v site else .done, []) := by
      simp only [Bring.step, hpc, htrack]
    refine bringCall_cons hbind ?_
    cases tracked with
    | false =>
      simp only [htrack] at h
      cases h
      exact Machine.reaches_here rfl
    | true =>
      cases hstamp : t₁.applyVMRuntime b.pod v.id v.ip with
      | mk t₂ stamped =>
        have happly : Bring.step { w with tables := t₁ } a { b with pc := .stamp v site } =
            some ({ w with tables := t₂ }, if stamped then .patch v site else .detach v, []) := by
          simp only [Bring.step, hstamp]
        have hdetach : Bring.step { w with tables := t₂ } a { b with pc := .detach v } =
            some ({ w with tables := (t₂.detachIncarnation b.pod.key b.pod.uid (some v)).1 }, .done, []) := rfl
        refine bringCall_cons happly ?_
        simp only [htrack, hstamp] at h
        cases stamped with
        | false =>
          cases h
          exact bringCall_cons hdetach (Machine.reaches_here rfl)
        | true =>
          -- the patch tells that another object has the name
          have hpatch : Bring.step { w with tables := t₂ } { a with reply := if nameTaken then .nameTaken else .ok }
              { b with pc := .patch v site } =
              some ({ w with tables := t₂ }, if nameTaken then .detach v else site.bound v, []) := by
            cases nameTaken <;> rfl
          refine bringCall_cons hpatch ?_
          cases nameTaken with
          | true =>
            cases h
            exact bringCall_cons hdetach (Machine.reaches_here rfl)
          | false =>
            cases h
            exact Machine.reaches_here rfl

/-! ### CreatePod next to a watcher -/

/-- `CreatePod` alone, of the name that is watched. -/
def createCall (r : BusyRecord) : Machine (Handover × Creation) HandoverAnswer :=
  ⟨fun s a => createStep r s.1 s.2 a⟩

/-- The points of `CreatePod`. The evidence check, the launch and the seed of the address are one, and
so are the attempts of an inspect; what follows a bind is left out. -/
inductive BringPC.Creates (launched : VM) : BringPC → CreatePC → Prop where
  | track : Creates launched .track .track
  | markCreating : Creates launched .markCreating .markCreating
  | look : Creates launched .index .look
  | inspect (v : VM) (attempt : ℕ) : Creates launched (.adoptInspect v attempt) (.inspect v)
  | drop (v : VM) : Creates launched (.dropIndex v) (.drop v)
  | evidence : Creates launched .evidence .bringUp
  | bringUp (restoring : Bool) : Creates launched (.bringUp restoring) .bringUp
  | seed (restoring : Bool) : Creates launched (.seed launched restoring) .bringUp
  | bind (v : VM) (site : BindSite) (fresh : Bool) (h : site ≠ .wake) :
    Creates launched (.bind v site) (.bind v fresh)
  | stamp (v : VM) (site : BindSite) (h : site ≠ .wake) : Creates launched (.stamp v site) (.stamp v)
  | patch (v : VM) (site : BindSite) (h : site ≠ .wake) : Creates launched (.patch v site) (.patch v)
  | detach (v : VM) : Creates launched (.detach v) (.detach v)
  | failOp (msg : String) : Creates launched (.fail msg) (.failOp msg)
  | failCreate : Creates launched .failCreate .failCreate
  | bound (v : VM) (site : BindSite) (h : site ≠ .wake) : Creates launched (site.bound v) (.bound v)
  | superseded : Creates launched .done .superseded
  | failed : Creates launched .done .failed

/-- The pod of the call and the VM that is launched for it. -/
structure Bring.ForName (b : Bring) : Prop where
  managed : b.pod.spec.managed = true
  name : b.launched.name = b.pod.spec.vmName
  notMacos : isMacosVM b.launched = false

section Create
variable {r : BusyRecord} {w w' : World} {a : Answer} {b : Bring} {pc' : BringPC} {new : List PodThread}
  {h : Handover} {x : Creation}

theorem seedLeaseIP_name (w : World) (v : VM) (reply : Reply) :
    (w.seedLeaseIP v reply).name = v.name ∧ isMacosVM (w.seedLeaseIP v reply) = isMacosVM v := by
  unfold World.seedLeaseIP
  split <;> exact ⟨rfl, rfl⟩

/- The tables are all that the two share; the notes about the watcher may change. -/
def Handover.Same (h h' : Handover) (t : Tables) : Prop := h'.toBusy = { h.toBusy with tables := t }

theorem Handover.Same.on {h₀ : Handover} {t : Tables} (hsame : h₀.Same h t) (f : Tables → Tables) :
    h₀.Same (h.onTables f) (f t) := by
  have ht : h.tables = t := congrArg Busy.tables hsame
  subst ht
  exact congrArg (fun u : Busy => { u with tables := f h.tables }) hsame

/-- The call `b` as the call next to the watcher has it. It began in `h₀`. -/
structure Bring.Beside (b : Bring) (w : World) (h₀ : Handover) (c : Handover × Creation) : Prop where
  pod : c.2.pod = b.pod
  same : h₀.Same c.1 w.tables
  point : b.pc.Creates b.launched c.2.pc

theorem createRun_one {h₀ : Handover} (ans : HandoverAnswer) (h' : Handover) (pc : CreatePC)
    (hstep : createStep r h x ans = some (h', { x with pc := pc })) (hpod : x.pod = b.pod)
    (hsame : h₀.Same h' w'.tables) (hpc : pc'.Creates b.launched pc) :
    (createCall r).Reaches (h, x) (Bring.Beside { b with pc := pc' } w' h₀) :=
  Machine.reaches_step ans hstep ⟨hpod, hsame, hpc⟩

/-- A step of `CreatePod` up to the end of its bind is a run of the call next to the watcher, once
nobody watches its name. -/
theorem create_step_run {h₀ : Handover} (hb : b.ForName)
    (hfree : ∀ n, h₀.busyCreates.get b.pod.spec.vmName = some n → n ∈ h₀.closed) (hc : b.Beside w h₀ (h, x))
    (hend : b.pc.hasBound = false) (hstep : b.step w a = some (w', pc', new)) :
    (createCall r).Reaches (h, x) (Bring.Beside { b with pc := pc' } w' h₀) := by
  obtain ⟨xpod, cancelled, xpc⟩ := x
  obtain ⟨hpod, hsame, hpc⟩ := hc
  dsimp only at hpod hsame hpc
  subst hpod
  have ht : h.tables = w.tables := congrArg Busy.tables hsame
  have hbusy : h.busyCreates = h₀.busyCreates := by rw [hsame]
  have hclosed : h.closed = h₀.closed := by rw [hsame]
  rw [← hbusy, ← hclosed] at hfree
  have hfail : ∀ msg, (createCall r).Reaches (h, ⟨b.pod, cancelled, .bringUp⟩)
      (Bring.Beside { b with pc := .fail msg } w h₀) := fun msg =>
    createRun_one (.broughtUp (.error msg)) h (.failOp msg) rfl rfl hsame (.failOp msg)
  unfold Bring.step at hstep
  generalize b.pc = bpc at hpc hstep hend
  cases hpc with
  | track =>
    cases htrack : w.tables.trackPodUnlessDeleting b.pod none with
    | mk t tracked =>
      simp only [htrack] at hstep
      cases hstep
      cases tracked with
      | true =>
        exact createRun_one .go (h.onTables fun _ => t) .markCreating
          (by simp only [createStep, ht, htrack]) rfl (hsame.on _) .markCreating
      | false =>
        exact createRun_one .go (h.onTables fun _ => t) .failed
          (by simp only [createStep, ht, htrack]) rfl (hsame.on _) .failed
  | markCreating =>
    cases hstep
    -- the wait is over at once
    refine ⟨.go :: .go :: (h.busyCreates.get b.pod.spec.vmName).toList.map fun _ => .go,
      (h.onTables fun _ => _, ⟨b.pod, cancelled, .look⟩), ?_, rfl, hsame.on _, .look⟩
    cases hbusy : h.busyCreates.get b.pod.spec.vmName with
    | none =>
      simp [createCall, Machine.exec, createStep, ht, Handover.onTables, hbusy, World.onTables]
    | some n =>
      simp [createCall, Machine.exec, createStep, ht, Handover.onTables, hbusy, hfree n hbusy, World.onTables]
  | look =>
    cases hget : w.tables.vmsByName.get b.pod.spec.vmName with
    | none =>
      simp only [hget] at hstep
      cases hstep
      exact createRun_one .go h .bringUp (by simp only [createStep, ht, hget]) rfl hsame .evidence
    | some v =>
      cases hmac : isMacosVM v with
      | true =>
        simp only [hget, hmac, if_true] at hstep
        cases hstep
        exact createRun_one .go h .bringUp (by simp only [createStep, ht, hget, hmac, if_true]) rfl hsame
          .evidence
      | false =>
        simp only [hget, hmac, Bool.false_eq_true, if_false] at hstep
        cases hstep
        exact createRun_one .go h (.inspect v)
          (by simp only [createStep, ht, hget, hmac, Bool.false_eq_true, if_false]) rfl hsame (.inspect v 0)
  | inspect v attempt =>
    cases hinspect : w.inspect v.id a.reply with
    | found u =>
      simp only [hinspect] at hstep
      cases hstep
      exact createRun_one (.inspected .alive) h (.bind v false) rfl rfl hsame (.bind v .adopt false (by simp))
    | notFound =>
      simp only [hinspect] at hstep
      cases hstep
      exact createRun_one (.inspected .notFound) _ (.drop v) rfl rfl hsame (.drop v)
    | inconclusive e =>
      simp only [hinspect] at hstep
      cases hstep
      split
      · exact Machine.reaches_here ⟨rfl, hsame, .inspect v (attempt + 1)⟩
      · exact createRun_one (.inspected (.failed e)) h (.failOp _) rfl rfl hsame (.failOp _)
  | drop v =>
    cases hstep
    exact createRun_one .go _ .bringUp rfl rfl (hsame.on _) .evidence
  | evidence =>
    simp only [hb.managed, Bool.not_true, Bool.false_eq_true, if_false] at hstep
    cases hstep
    have hon : ∀ restoring, (createCall r).Reaches (h, ⟨b.pod, cancelled, .bringUp⟩)
        (Bring.Beside { b with pc := .bringUp restoring } w h₀) :=
      fun restoring => Machine.reaches_here ⟨rfl, hsame, .bringUp restoring⟩
    repeat' split
    all_goals first | exact hfail _ | exact hon _
  | bringUp restoring =>
    simp only [hb.managed, Bool.not_true, Bool.false_eq_true, if_false] at hstep
    have htables := Bring.launch_tables w b.launched a.reply
    split at hstep
    next w₁ heq =>
      rw [heq] at htables
      cases hstep
      exact Machine.reaches_here ⟨rfl, htables ▸ hsame, .seed restoring⟩
    next w₁ e heq =>
      rw [heq] at htables
      cases hstep
      refine createRun_one (.broughtUp (.error e)) h (.failOp e) rfl rfl ?_ (.failOp e)
      rw [htables]
      exact hsame
  | seed restoring =>
    cases hstep
    obtain ⟨hname, hmac⟩ := seedLeaseIP_name w b.launched a.reply
    let h' : Handover := { h with
      broughtUp := (w.seedLeaseIP b.launched a.reply).id :: h.broughtUp
      cancelledLaunch := h.cancelledLaunch || cancelled }
    refine createRun_one (.broughtUp (.ok (w.seedLeaseIP b.launched a.reply))) h' (.bind _ true) ?_ rfl hsame
      (.bind _ (.launch restoring) true (by simp))
    simp only [createStep, hname, hb.name, hmac, hb.notMacos, beq_self_eq_true, Bool.not_false, Bool.and_self,
      if_true, h']
  | bind v site fresh hsite =>
    cases htrack : w.tables.trackPodIncarnation b.pod v with
    | mk t tracked =>
      simp only [htrack] at hstep
      cases hstep
      cases tracked with
      | true =>
        exact createRun_one .go (h.onTables fun _ => t) (.stamp v)
          (by simp only [createStep, ht, htrack]) rfl (hsame.on _) (.stamp v site hsite)
      | false =>
        exact createRun_one .go (h.onTables fun _ => t) .superseded
          (by simp only [createStep, ht, htrack]) rfl (hsame.on _) .superseded
  | stamp v site hsite =>
    cases hstamp : w.tables.applyVMRuntime b.pod v.id v.ip with
    | mk t owned =>
      simp only [hstamp] at hstep
      cases hstep
      cases owned with
      | true =>
        exact createRun_one .go (h.onTables fun _ => t) (.patch v)
          (by simp only [createStep, ht, hstamp]) rfl (hsame.on _) (.patch v site hsite)
      | false =>
        exact createRun_one .go (h.onTables fun _ => t) (.detach v)
          (by simp only [createStep, ht, hstamp]) rfl (hsame.on _) (.detach v)
  | patch v site hsite =>
    cases hstep
    by_cases htaken : a.reply = .nameTaken
    · rw [if_pos htaken]
      exact createRun_one (.patched true) h (.detach v) rfl rfl hsame (.detach v)
    · rw [if_neg htaken]
      exact createRun_one (.patched false) h (.bound v) rfl rfl hsame (.bound v site hsite)
  | detach v =>
    cases hstep
    exact createRun_one .go _ .superseded rfl rfl (hsame.on _)
      .superseded
  | failOp msg =>
    cases hstep
    exact createRun_one .go _ .failCreate rfl rfl (hsame.on _)
      .failCreate
  | failCreate =>
    cases hstep
    exact createRun_one .go _ .failed rfl rfl (hsame.on _) .failed
  | bound v site hsite =>
    rw [hasBound_bound] at hend
    cases hend
  | superseded | failed => cases hstep

/-- A run of `CreatePod` up to the end of its bind is one of the call next to the watcher. -/
theorem create_run {h₀ : Handover} {b' : Bring} {as : List Answer} (hb : b.ForName)
    (hfree : ∀ n, h₀.busyCreates.get b.pod.spec.vmName = some n → n ∈ h₀.closed) (hc : b.Beside w h₀ (h, x))
    (hend : bringCall.Guarded (fun s _ => s.2.pc.hasBound = false) (w, b) as)
    (hrun : bringCall.exec (w, b) as = some (w', b')) :
    (createCall r).Reaches (h, x) (b'.Beside w' h₀) := by
  let R : World × Bring → Handover × Creation → Prop := fun s c =>
    s.2.ForName ∧ s.2.pod = b.pod ∧ s.2.Beside s.1 h₀ c
  have hsim : ∀ s ans s' c, R s c → s.2.pc.hasBound = false → bringCall.step s ans = some s' →
      (createCall r).Reaches c (R s') := by
    rintro ⟨w₁, b₁⟩ ans ⟨w₂, b₂⟩ c ⟨hb₁, hpod₁, hc₁⟩ hend₁ hstep
    obtain ⟨pc₂, new, hbring, rfl⟩ := bringCall_step hstep
    rw [← hpod₁] at hfree
    exact (create_step_run hb₁ hfree hc₁ hend₁ hbring).mono fun _ hc' =>
      ⟨⟨hb₁.managed, hb₁.name, hb₁.notMacos⟩, hpod₁, hc'⟩
  have hstart : R (w, b) (h, x) := ⟨hb, rfl, hc⟩
  exact (bringCall.exec_simulates hsim hstart hend hrun).mono fun _ hr => hr.2.2

end Create

end VkCocoon
