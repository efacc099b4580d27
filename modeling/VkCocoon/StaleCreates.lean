import VkCocoon.StaleCreates.Steps

/-!
# Where a creating placeholder ends

The threads of startup together: the invariant of a restart, and that a record of the list which
was creating is kept, freed, given to the orphan policy once or held by one watcher.
-/

namespace VkCocoon
open Lib Tables

/-! ### The threads together -/

/-- What a thread has for itself: a closure its record, a watcher its channel. -/
inductive Owner where
  | main
  | record (i : ℕ)
  | chan (n : ℕ)
deriving DecidableEq

def BootThread.owner : BootThread → Option Owner
  | .main _ => some .main
  | .closure x => some (.record x.index)
  | .watcher w => some (.chan w.settled)

/-- Every record that is held has its watcher. -/
def Started (l : Listing) (c : BootConfig) : Prop :=
  ∀ (i n : ℕ) (v : VM), l.vms[i]? = some v → c.shared.fate[i]? = some (.held n) →
    ∃ w, .watcher w ∈ c.threads ∧ w.settled = n ∧ w.vmID = v.id

structure BootOK (l : Listing) (c : BootConfig) : Prop where
  stable : Program.Stable (BootInv l) (BootThread.Inv l) c
  apart : Program.Apart BootThread.owner c
  started : Started l c

section Pool
variable {S : Type} [DecidableEq S] {snapshot : LifecycleStatus → S} {policy : OrphanPolicy}
  {l : Listing} {c c' : BootConfig} {e : BootEvent}

theorem step_owner {b b' : Boot} {i : ℕ} {t t' : BootThread} {a : BootAnswer} {new : List BootThread}
    (h : BootThread.step snapshot policy l b i t a = some (b', t', new)) : t'.owner = t.owner := by
  cases t with
  | main pc =>
    obtain ⟨r, -, heq⟩ := Option.map_eq_some_iff.mp h
    cases heq
    rfl
  | closure x =>
    obtain ⟨r, -, heq⟩ := Option.map_eq_some_iff.mp h
    cases heq
    rfl
  | watcher w =>
    cases a with
    | watch a =>
      obtain ⟨r, -, heq⟩ := Option.map_eq_some_iff.mp h
      cases heq
      rfl
    | _ => cases h

theorem not_other (hdef : DefinedOutcome c (.run i a)) (text : String) :
    a ≠ .verb (some (.other text)) := by
  rintro rfl
  exact hdef

/- A closure interferes with nobody: the main thread waits for it, the other closures have other
records, and its record has no watcher yet. -/
theorem closure_stable {i : ℕ} {x : Closure} (hc : BootOK l c) (hi : c.threads[i]? = some (.closure x))
    {b' : Boot} {pc' : StalePC} {new : List BootThread} (hs : x.Step l c.shared b' pc' new) :
    ∀ j u, j ≠ i → c.threads[j]? = some u → BootThread.Inv l b' j u := by
  intro j u hj hu
  have hx : x.Inv l c.shared := hc.stable.2 i _ hi
  have hinv := hc.stable.2 j u hu
  have hpending := hx.pending hs.live
  cases u with
  | main pc =>
    refine hs.apart.main hx.listed hc.stable.1 (fun w hw => ?_) hs.kept hinv
    rw [hpending] at hw
    cases hw
  | closure y =>
    refine hs.apart.closure hx.listed (fun hyx => hj ?_) hinv
    exact hc.apart j i _ _ (.record x.index) hu hi (by simp only [BootThread.owner, hyx]) rfl
  | watcher w =>
    obtain ⟨k, v, hw⟩ := hinv
    refine ⟨k, v, hs.apart.watcher hx.listed (fun hki => ?_) hw⟩
    subst hki
    rw [hw.held] at hpending
    cases hpending

theorem watcher_stable {i k : ℕ} {v : VM} {w : BusyWatcher} (hc : BootOK l c)
    (hi : c.threads[i]? = some (.watcher w)) (hw : w.Inv l c.shared k v) {busy : Busy} {pc' : BusyPC}
    (hs : w.Step l c.shared k v busy pc') :
    ∀ j u, j ≠ i → c.threads[j]? = some u → BootThread.Inv l { c.shared with toBusy := busy } j u := by
  intro j u hj hu
  have hinv := hc.stable.2 j u hu
  cases u with
  | main pc =>
    refine hs.apart.main hw.listed hc.stable.1 (fun u hu => ?_) (fun u hu => ?_) hinv
    · rw [hw.held] at hu
      cases hu
    · have hu : c.shared.fate[k]? = some (.kept u) := hu
      rw [hw.held] at hu
      cases hu
  | closure y =>
    have hy : y.Inv l c.shared := hinv
    by_cases hyk : y.index = k
    · -- the closure that started this watcher has returned
      have hdone : y.pc = .done := by
        by_contra hlive
        have hpending := hy.pending hlive
        rw [hyk, hw.held] at hpending
        cases hpending
      refine ⟨hy.listed, fun hlive => absurd hdone hlive, fun u hu => ?_⟩
      rw [hdone] at hu
      cases hu
    · exact hs.apart.closure hw.listed hyk hinv
  | watcher w' =>
    obtain ⟨k', v', hw'⟩ := hinv
    refine ⟨k', v', hs.apart.watcher hw.listed (fun hkk => hj ?_) hw'⟩
    subst hkk
    have hsame : w'.settled = w.settled :=
      Fate.held.inj (Option.some.inj (hw'.held.symm.trans hw.held))
    exact hc.apart j i _ _ (.chan w.settled) hu hi (by simp only [BootThread.owner, hsame]) rfl

theorem main_stable {i : ℕ} {pc : MainPC} (hc : BootOK l c) (hi : c.threads[i]? = some (.main pc))
    {t : Tables} {orphaned : List VM} (hs : c.shared.Writes l t orphaned) :
    ∀ j u, j ≠ i → c.threads[j]? = some u → BootThread.Inv l (c.shared.write t orphaned) j u := by
  intro j u hj hu
  have hinv := hc.stable.2 j u hu
  cases u with
  | main pc' => exact absurd (hc.apart j i _ _ .main hu hi rfl rfl) hj
  | closure y => exact Boot.Writes.closure hinv
  | watcher w =>
    obtain ⟨k, v, hw⟩ := hinv
    exact ⟨k, v, hs.watcher hw⟩

theorem Closure.step_forks {x : Closure} {b b' : Boot} {a : BootAnswer} {pc' : StalePC}
    {new : List BootThread} (h : x.step policy b a = some (b', pc', new)) :
    new = [] ∨ ∃ w, new = [.watcher w] ∧ w.settled = b.nextChan := by
  simp only [Closure.step] at h
  repeat' split at h
  all_goals cases h
  all_goals first | exact Or.inl rfl | exact Or.inr ⟨_, rfl, rfl⟩

theorem step_forks {b b' : Boot} {i : ℕ} {t t' : BootThread} {a : BootAnswer} {new : List BootThread}
    (h : BootThread.step snapshot policy l b i t a = some (b', t', new)) :
    new = [] ∨ ∃ w, new = [.watcher w] ∧ w.settled = b.nextChan := by
  cases t with
  | main pc =>
    obtain ⟨r, -, heq⟩ := Option.map_eq_some_iff.mp h
    cases heq
    exact Or.inl rfl
  | closure x =>
    obtain ⟨⟨b₁, pc', new'⟩, hs, heq⟩ := Option.map_eq_some_iff.mp h
    cases heq
    exact Closure.step_forks hs
  | watcher w =>
    cases a with
    | watch a =>
      obtain ⟨r, -, heq⟩ := Option.map_eq_some_iff.mp h
      cases heq
      exact Or.inl rfl
    | _ => cases h

/- One step of one thread. -/
theorem run_stable {i : ℕ} {t t' : BootThread} {a : BootAnswer} {b' : Boot} {new : List BootThread}
    (hc : BootOK l c) (hdef : DefinedOutcome c (.run i a)) (ht : c.threads[i]? = some t)
    (h : BootThread.step snapshot policy l c.shared i t a = some (b', t', new)) :
    BootInv l b' ∧ BootThread.Inv l b' i t' ∧
      (∀ j u, j ≠ i → c.threads[j]? = some u → BootThread.Inv l b' j u) ∧
      ∀ j, ∀ u ∈ new, BootThread.Inv l b' j u := by
  have hinv := hc.stable.2 i t ht
  cases t with
  | main pc =>
    obtain ⟨⟨b₁, pc'⟩, hs, heq⟩ := Option.map_eq_some_iff.mp h
    cases heq
    obtain ⟨tables, orphaned, rfl, hwrites, hown⟩ := mainStep_spec hc.stable.1 hinv hs
    exact ⟨hwrites.inv hc.stable.1, hown, main_stable hc ht hwrites, fun _ _ hu => by cases hu⟩
  | closure x =>
    obtain ⟨⟨b₁, pc', new'⟩, hs, heq⟩ := Option.map_eq_some_iff.mp h
    cases heq
    have hstep := Closure.step_spec hc.stable.1 hinv (not_other hdef) hs
    refine ⟨hstep.inv, hstep.own, closure_stable hc ht hstep, fun j u hu => ?_⟩
    rcases hstep.new with ⟨rfl, -⟩ | ⟨w, rfl, -, hw⟩
    · cases hu
    · rw [List.mem_singleton.mp hu]
      exact ⟨_, _, hw⟩
  | watcher w =>
    cases a with
    | watch a =>
      obtain ⟨⟨busy, pc'⟩, hs, heq⟩ := Option.map_eq_some_iff.mp h
      cases heq
      obtain ⟨k, v, hw⟩ := hinv
      have hstep := BusyWatcher.step_spec hc.stable.1 hw hs
      exact ⟨hstep.inv, ⟨k, v, hstep.own⟩, watcher_stable hc ht hw hstep, fun _ _ hu => by cases hu⟩
    | _ => cases h

/- A channel that is made is a new one. -/
theorem next_owners (hc : BootOK l c) (h : (startup snapshot policy l).next c e = some c') :
    Program.Apart BootThread.owner c' := by
  refine (startup snapshot policy l).next_apart (fun _ _ he => by cases he) ?_ hc.apart h ?_
  · intro b i t a b' t' new hs
    refine ⟨fun x hx => ?_, fun u hu x _ => ?_⟩
    · have hown : t'.owner = t.owner := step_owner (show BootThread.step snapshot policy l b i t a = _ from hs)
      rw [← hown]
      exact hx
    · rcases step_forks (show BootThread.step snapshot policy l b i t a = _ from hs) with rfl | ⟨w, rfl, -⟩
      · cases hu
      · rw [List.mem_singleton.mp hu]
  · intro u hu x hx t ht
    cases e with
    | start t => exact absurd ((startup snapshot policy l).next_start h).1 (by rintro ⟨⟩)
    | env o => exact nomatch o
    | run i a =>
      obtain ⟨t₀, s', t', new, -, hs, rfl⟩ := (startup snapshot policy l).next_run h
      rw [Program.drop_moved] at hu
      rcases step_forks (show BootThread.step snapshot policy l c.shared i t₀ a = _ from hs) with
        rfl | ⟨w, rfl, hchan⟩
      · cases hu
      · rw [List.mem_singleton.mp hu] at hx
        cases hx
        obtain ⟨j, hj⟩ := List.mem_iff_getElem?.mp ht
        cases t with
        | main pc => rintro ⟨⟩
        | closure y => rintro ⟨⟩
        | watcher w' =>
          intro hown
          obtain ⟨k, v, hw'⟩ := hc.stable.2 j _ hj
          have hsame : w'.settled = w.settled := Owner.chan.inj (Option.some.inj hown)
          have hmade := hw'.made
          omega

/- A watcher stays in the pool. -/
theorem watcher_stays {i : ℕ} {a : BootAnswer} {w : BusyWatcher}
    (h : (startup snapshot policy l).next c (.run i a) = some c') (hw : .watcher w ∈ c.threads) :
    ∃ w', .watcher w' ∈ c'.threads ∧ w'.settled = w.settled ∧ w'.vmID = w.vmID := by
  obtain ⟨j, hj⟩ := List.mem_iff_getElem?.mp hw
  by_cases hij : i = j
  · subst hij
    obtain ⟨t, s', t', new, ht, hs, rfl⟩ := (startup snapshot policy l).next_run h
    rw [hj] at ht
    cases ht
    cases a with
    | watch a =>
      obtain ⟨r, -, heq⟩ := Option.map_eq_some_iff.mp hs
      cases heq
      exact ⟨_, List.mem_of_getElem? (Program.getElem?_moved hj _ _), rfl, rfl⟩
    | _ => cases hs
  · have hstay := (startup snapshot policy l).next_stands_by h hj fun a' he => hij (by cases he; rfl)
    exact ⟨w, List.mem_of_getElem? hstay, rfl, rfl⟩

theorem next_started (hc : BootOK l c) (hdef : DefinedOutcome c e)
    (h : (startup snapshot policy l).next c e = some c') : Started l c' := by
  cases e with
  | start t => exact absurd ((startup snapshot policy l).next_start h).1 (by rintro ⟨⟩)
  | env o => exact nomatch o
  | run i a =>
    intro k n v hv hheld
    -- a record that was held before has its watcher still
    have hold : c.shared.fate[k]? = some (.held n) →
        ∃ w, .watcher w ∈ c'.threads ∧ w.settled = n ∧ w.vmID = v.id := by
      intro hbefore
      obtain ⟨w, hw, hn, hid⟩ := hc.started k n v hv hbefore
      obtain ⟨w', hw', hn', hid'⟩ := watcher_stays h hw
      exact ⟨w', hw', hn'.trans hn, hid'.trans hid⟩
    obtain ⟨t, s', t', new, ht, hs, rfl⟩ := (startup snapshot policy l).next_run h
    have hinv := hc.stable.2 i t ht
    cases t with
    | main pc =>
      obtain ⟨⟨b₁, pc'⟩, hstep, heq⟩ := Option.map_eq_some_iff.mp hs
      cases heq
      obtain ⟨tables, orphaned, rfl, -, -⟩ := mainStep_spec hc.stable.1 hinv hstep
      exact hold hheld
    | closure x =>
      obtain ⟨⟨b₁, pc', new'⟩, hstep, heq⟩ := Option.map_eq_some_iff.mp hs
      cases heq
      have hspec := Closure.step_spec hc.stable.1 hinv (not_other hdef) hstep
      by_cases hk : k = x.index
      · subst hk
        rcases hspec.new with ⟨-, hno⟩ | ⟨w, rfl, -, hw⟩
        · exact absurd hheld (hno n)
        · refine ⟨w, List.mem_append_right _ List.mem_cons_self, ?_, ?_⟩
          · exact Fate.held.inj (Option.some.inj (hw.held.symm.trans hheld))
          · have hv' := hw.listed
            rw [hv] at hv'
            cases hv'
            exact hw.vmID
      · exact hold ((hspec.apart.fate k hk).symm.trans hheld)
    | watcher w =>
      cases a with
      | watch a =>
        obtain ⟨r, -, heq⟩ := Option.map_eq_some_iff.mp hs
        cases heq
        exact hold hheld
      | _ => cases hs

theorem next_ok (hc : BootOK l c) (hdef : DefinedOutcome c e)
    (h : (startup snapshot policy l).next c e = some c') : BootOK l c' := by
  refine ⟨?_, next_owners hc h, next_started hc hdef h⟩
  refine (startup snapshot policy l).next_stable (G := fun c e => BootOK l c ∧ DefinedOutcome c e)
    (fun _ _ _ _ he => by cases he) ?_ (fun _ o => nomatch o) c e c' hc.stable ⟨hc, hdef⟩ h
  intro c i t a s' t' new _ hg ht hs
  obtain ⟨hinv, hown, hother, hnew⟩ := run_stable hg.1 hg.2 ht
    (show BootThread.step snapshot policy l c.shared i t a = _ from hs)
  exact ⟨hinv, hown, hother, fun j u _ hu => hnew j u hu⟩

end Pool

/-! ### The start of a restart -/

section Start
variable {l : Listing}

theorem clean_new (x : VMID) : Clean l Tables.new x := by
  constructor
  · intro key v hv
    simp [Tables.new] at hv
  · intro name v hv
    simp [Tables.new] at hv

theorem mem_placeholders {i : ℕ} {v : VM} :
    (v, i) ∈ l.vms.zipIdx.filter (fun x => x.1.state = .creating) ↔
      l.vms[i]? = some v ∧ v.state = .creating := by
  rw [List.mem_filter, List.mk_mem_zipIdx_iff_getElem?, decide_eq_true_iff]

theorem boot_inv : BootInv l l.boot := by
  have hlisted : ∀ x s, l.boot.seen.get x = some s → ∃ v ∈ l.vms, v.id = x ∧ v.state = s :=
    fun x s hs => GoMap.mem_of_get_fold VM.id VM.state l.vms x s hs
  have hfate : ∀ (i : ℕ) (v : VM), l.vms[i]? = some v →
      l.boot.fate[i]? = some (if v.state = .creating then .pending else .kept v) := by
    intro i v hv
    simp only [Listing.boot, List.getElem?_map, hv, Option.map_some]
  refine ⟨?_, List.length_map _, fun i hi => ?_, fun x s hs => ?_, fun i v f hv hf => ?_⟩
  · simp only [Listing.boot, List.map_map]
    refine List.map_congr_left fun v _ => ?_
    by_cases hv : v.state = .creating <;> simp [hv, Fate.keep]
  · obtain ⟨v, hv, hp⟩ := List.getElem?_map .. ▸ hi |> Option.map_eq_some_iff.mp
    have hs : v.state = .creating := by
      by_contra hne
      rw [if_neg hne] at hp
      cases hp
    exact List.mem_map.mpr ⟨(v, i), mem_placeholders.mpr ⟨hv, hs⟩, rfl⟩
  · obtain ⟨v, hv, hid, -⟩ := hlisted x s hs
    obtain ⟨i, hi⟩ := List.mem_iff_getElem?.mp hv
    exact ⟨i, v, hi, hid⟩
  · rw [hfate i v hv] at hf
    obtain rfl := Option.some.inj hf
    by_cases hs : v.state = .creating
    · rw [if_pos hs]
      exact ⟨by rw [if_pos hs]; rfl, clean_new _, rfl⟩
    · rw [if_neg hs]
      refine ⟨by rw [if_neg hs]; rfl, rfl, fun hseen => hs ?_⟩
      obtain ⟨w, hw, hid, hstate⟩ := hlisted _ _ hseen
      rw [← List.inj_on_of_nodup_map l.ids_nodup hw (List.mem_of_getElem? hv) hid]
      exact hstate

theorem start_owners : Program.Apart BootThread.owner l.start := by
  have hnodup : (l.start.threads.map BootThread.owner).Nodup := by
    rw [Listing.start, List.map_cons, List.map_map, List.nodup_cons]
    constructor
    · intro hm
      obtain ⟨x, -, hx⟩ := List.mem_map.mp hm
      cases hx
    · have hidx : ((l.vms.zipIdx.filter fun x => x.1.state = .creating).map (·.2)).Nodup := by
        refine (List.filter_sublist.map _).nodup ?_
        rw [List.zipIdx_map_snd]
        exact List.nodup_range'
      have hcomp : (BootThread.owner ∘ fun x : VM × ℕ => .closure ⟨x.2, x.1, .verb⟩) =
          (fun n => some (Owner.record n)) ∘ (·.2) := rfl
      rw [hcomp, ← List.map_map]
      exact hidx.map fun m n h => Owner.record.inj (Option.some.inj h)
  intro i j t u x hi hj hx hy
  by_contra hne
  exact getElem?_apart hnodup hj hi hne (hx.trans hy.symm)

theorem start_ok : BootOK l l.start := by
  refine ⟨⟨boot_inv, fun j t ht => ?_⟩, start_owners, fun i n v hv hheld => ?_⟩
  · rcases List.mem_cons.mp (List.mem_of_getElem? ht) with rfl | hm
    · exact fun _ _ _ => rfl
    · obtain ⟨⟨v, i⟩, hx, rfl⟩ := List.mem_map.mp hm
      obtain ⟨hv, hs⟩ := mem_placeholders.mp hx
      refine ⟨hv, fun _ => ?_, by rintro _ ⟨⟩⟩
      simp only [Listing.start, Listing.boot, List.getElem?_map, hv, Option.map_some, if_pos hs]
  · simp only [Listing.start, Listing.boot, List.getElem?_map, hv, Option.map_some] at hheld
    split at hheld <;> cases hheld

end Start

/-! ### The fan-out returns -/

/-- What a closure may be answered at a point. -/
def StalePC.Takes (vmID : VMID) : StalePC → BootAnswer → Prop
  | .verb, .verb _ => True
  | .inspect, .inspected answer => answer.about vmID = true
  | .orphan _, .go | .watch, .go => True
  | _, _ => False

/-- The steps a closure has left at most. -/
def StalePC.left : StalePC → ℕ
  | .verb => 3
  | .inspect => 2
  | .orphan _ | .watch => 1
  | .done => 0

/-- The fan-out waits only for closures that have not returned. None of these is ever held up, each
returns after three steps at most, and `StartupReconcile` goes on when all have. -/
structure FanOutReturns {S : Type} [DecidableEq S] (snapshot : LifecycleStatus → S)
    (policy : OrphanPolicy) (l : Listing) (es : List BootEvent) (c : BootConfig) : Prop where
  waits : ∀ i ∈ c.shared.pending, ∃ (j : ℕ) (x : Closure), c.threads[j]? = some (.closure x) ∧
    x.index = i ∧ x.pc ≠ .done
  moves : ∀ (j : ℕ) (x : Closure), c.threads[j]? = some (.closure x) → x.pc ≠ .done →
    (∃ a, x.pc.Takes x.v.id a) ∧
      ∀ a, x.pc.Takes x.v.id a → ((startup snapshot policy l).next c (.run j a)).isSome = true
  bounded : ∀ (j : ℕ) (x : Closure), c.threads[j]? = some (.closure x) →
    es.countP (·.runs j) + x.pc.left ≤ 3
  joined : ∀ (j : ℕ), c.threads[j]? = some (.main .fanOut) → c.shared.pending = [] →
    ((startup snapshot policy l).next c (.run j .go)).isSome = true

section FanOut
variable {S : Type} [DecidableEq S] {snapshot : LifecycleStatus → S} {policy : OrphanPolicy}
  {l : Listing} {c c' : BootConfig} {e : BootEvent} {b b' : Boot} {x : Closure} {a : BootAnswer}

/- What a step of a closure leaves to be done. -/
theorem Closure.step_left {pc' : StalePC} {new : List BootThread}
    (h : x.step policy b a = some (b', pc', new)) :
    pc'.left < x.pc.left ∧
      b'.pending = if pc' = .done then b.pending.filter (· ≠ x.index) else b.pending := by
  cases hpc : x.pc with
  | verb =>
    cases a with
    | verb outcome =>
      simp only [Closure.step, hpc] at h
      split at h <;> cases h <;> exact ⟨by simp [StalePC.left], rfl⟩
    | _ =>
      simp only [Closure.step, hpc] at h
      cases h
  | inspect =>
    cases a with
    | inspected answer =>
      simp only [Closure.step, hpc] at h
      split at h
      · split at h <;> cases h <;> exact ⟨by simp [StalePC.left], rfl⟩
      · cases h
    | _ =>
      simp only [Closure.step, hpc] at h
      cases h
  | orphan u | watch =>
    cases a with
    | go =>
      simp only [Closure.step, hpc] at h
      cases h
      exact ⟨by simp [StalePC.left], rfl⟩
    | _ =>
      simp only [Closure.step, hpc] at h
      cases h
  | done =>
    simp only [Closure.step, hpc] at h
    cases h

theorem Closure.step_isSome (policy : OrphanPolicy) (b : Boot) (h : x.pc.Takes x.v.id a) :
    (x.step policy b a).isSome = true := by
  cases hpc : x.pc with
  | verb =>
    rw [hpc] at h
    cases a with
    | verb outcome =>
      simp only [Closure.step, hpc]
      split <;> rfl
    | _ => cases h
  | inspect =>
    rw [hpc] at h
    cases a with
    | inspected answer =>
      have habout : answer.about x.v.id = true := h
      simp only [Closure.step, hpc, habout, if_true]
      split <;> rfl
    | _ => cases h
  | orphan u | watch =>
    rw [hpc] at h
    cases a with
    | go => simp only [Closure.step, hpc, Option.isSome_some]
    | _ => cases h
  | done =>
    rw [hpc] at h
    cases a <;> cases h

theorem StalePC.exists_takes {pc : StalePC} (h : pc ≠ .done) (vmID : VMID) : ∃ a, pc.Takes vmID a := by
  cases pc with
  | verb => exact ⟨.verb none, trivial⟩
  | inspect => exact ⟨.inspected .notFound, rfl⟩
  | orphan | watch => exact ⟨.go, trivial⟩
  | done => exact absurd rfl h

/-- The fan-out waits for closures that have not returned. -/
def Waits (c : BootConfig) : Prop :=
  ∀ i ∈ c.shared.pending, ∃ (j : ℕ) (x : Closure), c.threads[j]? = some (.closure x) ∧ x.index = i ∧
    x.pc ≠ .done

theorem next_waits (hc : BootOK l c) (hw : Waits c) (h : (startup snapshot policy l).next c e = some c') :
    Waits c' := by
  cases e with
  | start t => exact absurd ((startup snapshot policy l).next_start h).1 (by rintro ⟨⟩)
  | env o => exact nomatch o
  | run k a =>
    obtain ⟨t, s', t', new, ht, hs, rfl⟩ := (startup snapshot policy l).next_run h
    -- a closure that stands by is still there
    have hstays : ∀ (j : ℕ) (x : Closure), j ≠ k → c.threads[j]? = some (.closure x) →
        (c.threads.set k t' ++ new)[j]? = some (.closure x) := fun j x hj hx =>
      (startup snapshot policy l).next_stands_by h hx fun a' he => hj (by cases he; rfl)
    have hothers : s'.pending = c.shared.pending → (∀ x, t ≠ .closure x) →
        Waits ⟨s', c.threads.set k t' ++ new⟩ := by
      intro hsame hno i hi
      obtain ⟨j, x, hx, hrest⟩ := hw i (hsame ▸ hi)
      refine ⟨j, x, hstays j x (fun hjk => ?_) hx, hrest⟩
      subst hjk
      exact hno x (Option.some.inj (ht.symm.trans hx))
    cases t with
    | main pc =>
      obtain ⟨⟨b₁, pc'⟩, hstep, heq⟩ := Option.map_eq_some_iff.mp hs
      cases heq
      obtain ⟨tables, orphaned, rfl, -, -⟩ := mainStep_spec hc.stable.1 (hc.stable.2 k _ ht) hstep
      exact hothers rfl (by rintro _ ⟨⟩)
    | watcher w =>
      cases a with
      | watch a =>
        obtain ⟨r, -, heq⟩ := Option.map_eq_some_iff.mp hs
        cases heq
        exact hothers rfl (by rintro _ ⟨⟩)
      | _ => cases hs
    | closure y =>
      obtain ⟨⟨b₁, pc', new'⟩, hstep, heq⟩ := Option.map_eq_some_iff.mp hs
      cases heq
      obtain ⟨-, hpending⟩ := Closure.step_left hstep
      intro i hi
      replace hi : i ∈ b₁.pending := hi
      rw [hpending] at hi
      by_cases hdone : pc' = .done
      · rw [if_pos hdone, List.mem_filter] at hi
        obtain ⟨j, x, hx, hxi, hlive⟩ := hw i hi.1
        refine ⟨j, x, hstays j x (fun hjk => ?_) hx, hxi, hlive⟩
        subst hjk
        cases ht.symm.trans hx
        exact of_decide_eq_true hi.2 hxi.symm
      · rw [if_neg hdone] at hi
        obtain ⟨j, x, hx, hxi, hlive⟩ := hw i hi
        by_cases hjk : j = k
        · subst hjk
          cases ht.symm.trans hx
          exact ⟨j, _, Program.getElem?_moved ht _ _, hxi, hdone⟩
        · exact ⟨j, x, hstays j x hjk hx, hxi, hlive⟩

theorem start_waits : Waits l.start := by
  intro i hi
  obtain ⟨⟨v, k⟩, hx, rfl⟩ := List.mem_map.mp hi
  have hmem : BootThread.closure ⟨k, v, .verb⟩ ∈ l.start.threads :=
    List.mem_cons_of_mem _ (List.mem_map.mpr ⟨_, hx, rfl⟩)
  obtain ⟨j, hj⟩ := List.mem_iff_getElem?.mp hmem
  exact ⟨j, _, hj, rfl, by rintro ⟨⟩⟩

/- The steps a thread of startup has left, for a closure. -/
def BootThread.left : BootThread → ℕ
  | .closure x => x.pc.left
  | _ => 0

theorem step_left {i : ℕ} {t t' : BootThread} {new : List BootThread}
    (h : (startup snapshot policy l).step b i t a = some (b', t', new)) (ht : ∃ x, t = .closure x) :
    (∃ x, t' = .closure x) ∧ t'.left < t.left := by
  obtain ⟨x, rfl⟩ := ht
  obtain ⟨⟨b₁, pc', new'⟩, hs, heq⟩ := Option.map_eq_some_iff.mp h
  cases heq
  exact ⟨⟨_, rfl⟩, (Closure.step_left hs).1⟩

/-- The closures are those of the start. -/
def FromStart (l : Listing) (c : BootConfig) : Prop :=
  ∀ (j : ℕ) (x : Closure), c.threads[j]? = some (.closure x) →
    ∃ y, l.start.threads[j]? = some (.closure y)

theorem next_fromStart (hf : FromStart l c) (h : (startup snapshot policy l).next c e = some c') :
    FromStart l c' := by
  cases e with
  | start t => exact absurd ((startup snapshot policy l).next_start h).1 (by rintro ⟨⟩)
  | env o => exact nomatch o
  | run k a =>
    obtain ⟨t, s', t', new, ht, hs, rfl⟩ := (startup snapshot policy l).next_run h
    intro j x hx
    rcases Program.getElem?_append_cases hx with hold | ⟨-, hnew⟩
    · rcases Program.getElem?_set_cases hold with ⟨rfl, rfl⟩ | ⟨-, hj⟩
      · cases t with
        | main pc =>
          obtain ⟨r, -, heq⟩ := Option.map_eq_some_iff.mp hs
          cases heq
        | closure y => exact hf j y ht
        | watcher w =>
          cases a with
          | watch a =>
            obtain ⟨r, -, heq⟩ := Option.map_eq_some_iff.mp hs
            cases heq
          | _ => cases hs
      · exact hf j x hj
    · cases t with
      | main pc =>
        obtain ⟨r, -, heq⟩ := Option.map_eq_some_iff.mp hs
        cases heq
        cases hnew
      | closure y =>
        obtain ⟨r, hstep, heq⟩ := Option.map_eq_some_iff.mp hs
        cases heq
        rcases Closure.step_forks hstep with hnone | ⟨w, hone, -⟩
        · rw [hnone] at hnew
          cases hnew
        · rw [hone] at hnew
          cases List.mem_singleton.mp hnew
      | watcher w =>
        cases a with
        | watch a =>
          obtain ⟨r, -, heq⟩ := Option.map_eq_some_iff.mp hs
          cases heq
          cases hnew
        | _ => cases hs

theorem fanOut_returns {es : List BootEvent}
    (hdef : (startup snapshot policy l).machine.Guarded DefinedOutcome l.start es)
    (h : (startup snapshot policy l).machine.exec l.start es = some c) :
    FanOutReturns snapshot policy l es c := by
  have hnext : ∀ c e c', (BootOK l c ∧ Waits c ∧ FromStart l c) → DefinedOutcome c e →
      (startup snapshot policy l).next c e = some c' → BootOK l c' ∧ Waits c' ∧ FromStart l c' :=
    fun _ _ _ hc hd hstep => ⟨next_ok hc.1 hd hstep, next_waits hc.1 hc.2.1 hstep,
      next_fromStart hc.2.2 hstep⟩
  obtain ⟨-, hwaits, hfrom⟩ := (startup snapshot policy l).machine.exec_invariant hnext
    ⟨start_ok, start_waits, fun _ x hx => ⟨x, hx⟩⟩ hdef h
  refine ⟨hwaits, fun j x hx hlive => ⟨StalePC.exists_takes hlive _, fun a ha => ?_⟩, ?_, ?_⟩
  · obtain ⟨r, hr⟩ := Option.isSome_iff_exists.mp (Closure.step_isSome policy c.shared ha)
    have hstep : (startup snapshot policy l).step c.shared j (.closure x) a =
        some (r.1, .closure { x with pc := r.2.1 }, r.2.2) := by
      simp only [startup, BootThread.step, hr, Option.map_some]
    rw [(startup snapshot policy l).next_run_eq hx hstep, Option.isSome_some]
  · intro j x hx
    obtain ⟨y, hy⟩ := hfrom j x hx
    have hlower : ∀ b i t a b' t' new, (startup snapshot policy l).step b i t a = some (b', t', new) →
        (∃ x, t = .closure x) → (∃ x, t' = .closure x) ∧ t'.left < t.left :=
      fun _ _ _ _ _ _ _ hs hk => step_left hs hk
    obtain ⟨t', ht', -, hcount⟩ := (startup snapshot policy l).exec_ranked hlower h hy ⟨y, rfl⟩
    cases hx.symm.trans ht'
    have hthree : y.pc.left ≤ 3 := by cases y.pc <;> simp [StalePC.left]
    exact hcount.trans hthree
  · intro j hj hnone
    have hstep : (startup snapshot policy l).step c.shared j (.main .fanOut) .go =
        some (c.shared, .main (.pods l.pods []), []) := by
      simp only [startup, BootThread.step, mainStep, hnone, if_true, Option.map_some]
    rw [(startup snapshot policy l).next_run_eq hj hstep, Option.isSome_some]

end FanOut

/-! ### Every record settles -/

section Settles
variable {l : Listing} {c : BootConfig}

theorem BootOK.kept (hc : BootOK l c) : c.shared.kept = l.vms.zipIdx.filterMap fun x =>
    if x.1.state = .creating then runningAnswer (c.shared.inspects.get x.2) else some x.1 := by
  have hb := hc.stable.1
  have hmap : c.shared.fate.map Fate.keep = l.vms.zipIdx.map fun x =>
      if x.1.state = .creating then runningAnswer (c.shared.inspects.get x.2) else some x.1 := by
    refine List.ext_getElem? fun i => ?_
    rw [List.getElem?_map, List.getElem?_map, List.getElem?_zipIdx, Nat.zero_add]
    cases hv : l.vms[i]? with
    | none =>
      have hlen : c.shared.fate.length ≤ i := by
        rw [hb.length]
        exact List.getElem?_eq_none_iff.mp hv
      rw [List.getElem?_eq_none hlen]
      rfl
    | some v =>
      have hlt : i < c.shared.fate.length := by
        rw [hb.length]
        exact (List.getElem?_eq_some_iff.mp hv).1
      have hf : c.shared.fate[i]? = some c.shared.fate[i] := List.getElem?_eq_getElem hlt
      rw [hf]
      exact congrArg some (hb.fates i v _ hv hf).expected.symm
  rw [Boot.kept, hb.keep, hmap, List.filterMap_map]
  rfl

/- The watchers of a record have the channel it is held by. -/
theorem BootOK.watcher_held (hc : BootOK l c) {i : ℕ} {v : VM} (hv : l.vms[i]? = some v)
    {w : BusyWatcher} (hw : .watcher w ∈ c.threads) (hid : w.vmID = v.id) : w.Inv l c.shared i v := by
  obtain ⟨j, hj⟩ := List.mem_iff_getElem?.mp hw
  obtain ⟨k, u, hinv⟩ := hc.stable.2 j _ hj
  have hki : k = i := by
    by_contra hne
    exact Listing.id_ne hv hinv.listed hne (hinv.vmID.symm.trans hid)
  subst hki
  have hu := hinv.listed
  rw [hv] at hu
  cases hu
  exact hinv

theorem BootOK.not_watched (hc : BootOK l c) {i : ℕ} {v : VM} (hv : l.vms[i]? = some v) {f : Fate}
    (hf : c.shared.fate[i]? = some f) (hno : ∀ n, f ≠ .held n) : NotWatched c v.id := by
  intro w hw hid
  have hheld := (hc.watcher_held hv hw hid).held
  rw [hf] at hheld
  exact hno _ (Option.some.inj hheld)

theorem BootOK.heldBy (hc : BootOK l c) {i n : ℕ} {v : VM} (hv : l.vms[i]? = some v)
    (hf : c.shared.fate[i]? = some (.held n)) :
    ∃ j, HeldBy c v j ∧
      ∀ (k : ℕ) (w : BusyWatcher), c.threads[k]? = some (.watcher w) → w.vmID = v.id → k = j := by
  have hchan : ∀ w, .watcher w ∈ c.threads → w.vmID = v.id → w.settled = n := by
    intro w hw hid
    exact Fate.held.inj (Option.some.inj ((hc.watcher_held hv hw hid).held.symm.trans hf))
  obtain ⟨w, hw, hn, hid⟩ := hc.started i n v hv hf
  obtain ⟨j, hj⟩ := List.mem_iff_getElem?.mp hw
  refine ⟨j, ⟨w, hj, hid, (hc.watcher_held hv hw hid).busy⟩, fun k w' hk hid' => ?_⟩
  refine hc.apart k j _ _ (.chan n) hk hj ?_ ?_
  · simp only [BootThread.owner, hchan w' (List.mem_of_getElem? hk) hid']
  · simp only [BootThread.owner, hn]

theorem BootOK.ends (hc : BootOK l c) {i : ℕ} {v : VM} (hv : l.vms[i]? = some v)
    (hs : v.state = .creating) (hdone : i ∉ c.shared.pending)
    (hnot : runningAnswer (c.shared.inspects.get i) = none) : ∃! e, EndsAs c i v e := by
  have hb := hc.stable.1
  have hlt : i < c.shared.fate.length := by
    rw [hb.length]
    exact (List.getElem?_eq_some_iff.mp hv).1
  obtain ⟨f, hf⟩ : ∃ f, c.shared.fate[i]? = some f := ⟨_, List.getElem?_eq_getElem hlt⟩
  have his := hb.fates i v f hv hf
  have hholds := his.holds
  cases f with
  | pending => exact absurd (hb.waits i hf) hdone
  | kept u =>
    have hexpected := his.expected
    rw [if_pos hs, hnot] at hexpected
    cases hexpected
  | freed =>
    have hno := hc.not_watched hv hf (by rintro _ ⟨⟩)
    refine ⟨.freed, ⟨hholds.2, hno, hholds.1.calls⟩, fun e he => ?_⟩
    cases e with
    | freed => rfl
    | orphaned => exact absurd (hholds.1.calls.symm.trans he.2) (by decide)
    | held =>
      obtain ⟨⟨j, ⟨w, hj, hid, -⟩, -⟩, -⟩ := he
      exact absurd hid (hno w (List.mem_of_getElem? hj))
  | orphaned =>
    have hno := hc.not_watched hv hf (by rintro _ ⟨⟩)
    refine ⟨.orphaned, ⟨hno, hholds.1⟩, fun e he => ?_⟩
    cases e with
    | freed => exact absurd (he.2.2.symm.trans hholds.1) (by decide)
    | orphaned => rfl
    | held =>
      obtain ⟨⟨j, ⟨w, hj, hid, -⟩, -⟩, -⟩ := he
      exact absurd hid (hno w (List.mem_of_getElem? hj))
  | held n =>
    obtain ⟨j, hheld, hone⟩ := hc.heldBy hv hf
    have hwatched : ¬NotWatched c v.id := by
      obtain ⟨w, hj, hid, -⟩ := hheld
      exact fun hno => hno w (List.mem_of_getElem? hj) hid
    refine ⟨.held, ⟨⟨j, hheld, hone⟩, hholds.1⟩, fun e he => ?_⟩
    cases e with
    | freed => exact absurd he.2.1 hwatched
    | orphaned => exact absurd he.1 hwatched
    | held => rfl

/- A record that was last observed as creating has a fate that keeps it out of the tables. -/
theorem BootOK.clean (hc : BootOK l c) {x : VMID} (hx : c.shared.seen.get x = some .creating) :
    Clean l c.shared.tables x := by
  have hb := hc.stable.1
  obtain ⟨i, v, hv, rfl⟩ := hb.seen x _ hx
  have hlt : i < c.shared.fate.length := by
    rw [hb.length]
    exact (List.getElem?_eq_some_iff.mp hv).1
  obtain ⟨f, hf⟩ : ∃ f, c.shared.fate[i]? = some f := ⟨_, List.getElem?_eq_getElem hlt⟩
  have hholds := (hb.fates i v f hv hf).holds
  cases f with
  | pending => exact hholds.clean
  | kept u => exact absurd hx hholds.2
  | freed => exact hholds.1.clean
  | orphaned => exact absurd hx hholds.2
  | held n => exact hholds.2.resolve_left fun hs => hs hx

/-- In every run of a restart with its watchers the list is stripped of exactly the placeholders
that are not running, each of these ends in one way, and none that was last seen creating is bound
or indexed but from the annotations of an unmanaged pod. The closures the fan-out waits for all
return. -/
theorem startup_settles_placeholders {S : Type} [DecidableEq S] (snapshot : LifecycleStatus → S)
    (policy : OrphanPolicy) (l : Listing) (es : List BootEvent) (c : BootConfig)
    (hdef : (startup snapshot policy l).machine.Guarded DefinedOutcome l.start es)
    (h : (startup snapshot policy l).machine.exec l.start es = some c) :
    Settles l (Annotates l) c ∧ FanOutReturns snapshot policy l es c := by
  have hc : BootOK l c := (startup snapshot policy l).machine.exec_invariant
    (fun _ _ _ hok hd hstep => next_ok hok hd hstep) start_ok hdef h
  refine ⟨⟨fun _ => hc.kept, fun i v hv hs hdone hnot => hc.ends hv hs hdone hnot, ?_, ?_⟩,
    fanOut_returns hdef h⟩
  · exact fun x hx key v hv hid => (hc.clean hx).bound key v hv hid
  · exact fun x hx name v hv hid => (hc.clean hx).named name v hv hid

def listedVM (id : VMID) (name : String) (state : VMState) : VM := ⟨0, id, name, "", state, "", "", 0, []⟩

def listedPod (key : Key) (managed : Bool) (vmName : String) (vmid : VMID) : Pod :=
  ⟨0, key, "u", false, 0, ⟨vmName, managed, .other "linux", .cloudHypervisor⟩, false, none, .absent, vmid,
    "", "", true, false, false⟩

def plainFindings : Findings := ⟨none, none, false, none, .recorded, .recorded, none, false, false, 0⟩

/-- One record that runs, one that has just been committed, one that is still being created. -/
def mixedListing : Listing where
  pods := [listedPod "ns/a" true "vk-a" "vm1", listedPod "ns/b" true "vk-b" ""]
  vms := [listedVM "vm1" "vk-a" .running, listedVM "vm2" "vk-b" .creating, listedVM "vm3" "vk-c" .creating]
  ids_nodup := by decide
  names_nodup := by decide
  macos_apart := by decide

def mixedRun : List BootEvent :=
  [.run 1 (.verb (some .notCreating)), .run 2 (.verb (some .busy)),
   .run 1 (.inspected (.found (listedVM "vm2" "vk-b" .running))), .run 2 .go, .run 0 .go,
   .run 0 (.findings plainFindings), .run 3 (.watch .wake), .run 0 (.findings plainFindings),
   .run 0 .go, .run 0 .go, .run 0 .go]

theorem startup_settles_mixed :
    ∃ c, (startup (id : LifecycleStatus → LifecycleStatus) .destroy mixedListing).machine.exec
        mixedListing.start mixedRun = some c ∧
      (c.shared.tables.vmsByPod.get "ns/b").map (·.id) = some "vm2" ∧
      c.shared.busyCreates.get "vk-c" = some 0 ∧
      Settles mixedListing (Annotates mixedListing) c ∧
      FanOutReturns (id : LifecycleStatus → LifecycleStatus) .destroy mixedListing mixedRun c := by
  have hrun : ((startup (id : LifecycleStatus → LifecycleStatus) .destroy mixedListing).machine.exec
      mixedListing.start mixedRun).map (fun c => ((c.shared.tables.vmsByPod.get "ns/b").map (·.id),
        c.shared.busyCreates.get "vk-c")) = some (some "vm2", some 0) := by decide +kernel
  obtain ⟨c, hc, hboth⟩ := Option.map_eq_some_iff.mp hrun
  exact ⟨c, hc, congrArg Prod.fst hboth, congrArg Prod.snd hboth,
    startup_settles_placeholders id .destroy mixedListing mixedRun c (by decide +kernel) hc⟩

/-- An unmanaged pod annotates the ID of a record that is still being created. -/
def annotatedListing : Listing where
  pods := [listedPod "ns/a" false "vk-a" "vm1"]
  vms := [listedVM "vm1" "vk-a" .creating]
  ids_nodup := by decide
  names_nodup := by decide
  macos_apart := by decide

theorem startup_binds_annotated :
    ¬∀ (l : Listing) (es : List BootEvent) (c : BootConfig),
      (startup (id : LifecycleStatus → LifecycleStatus) .destroy l).machine.Guarded DefinedOutcome l.start es →
      (startup (id : LifecycleStatus → LifecycleStatus) .destroy l).machine.exec l.start es = some c →
      Settles l (fun _ _ => False) c := by
  intro h
  have hrun : ((startup (id : LifecycleStatus → LifecycleStatus) .destroy annotatedListing).machine.exec
      annotatedListing.start [.run 1 (.verb (some .busy)), .run 1 .go, .run 0 .go,
        .run 0 (.findings plainFindings)]).map (fun c => (c.shared.seen.get "vm1",
        (c.shared.tables.vmsByPod.get "ns/a").map (·.id))) = some (some .creating, some "vm1") := by
    decide +kernel
  obtain ⟨c, hc, hboth⟩ := Option.map_eq_some_iff.mp hrun
  have hseen := congrArg Prod.fst hboth
  obtain ⟨v, hv, hid⟩ := Option.map_eq_some_iff.mp (congrArg Prod.snd hboth)
  obtain ⟨pod, hfalse, -⟩ := (h annotatedListing _ c (by decide +kernel) hc).bound "vm1" hseen "ns/a" v hv hid
  exact hfalse

end Settles

end VkCocoon
