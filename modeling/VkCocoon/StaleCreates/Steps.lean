import VkCocoon.StaleCreates.Model

/-!
# The threads of startup

A closure and a watcher work on one record of the list, which no other thread of their kind has, so
a step leaves alone what the invariant says of the others. The rest of startup moves once every
closure has returned.
-/

namespace VkCocoon
open Lib Tables

/-! ### Steps that are about one record -/

/-- What a step about the record `v` at `i` leaves alone. -/
structure Boot.Apart (l : Listing) (i : ℕ) (v : VM) (b b' : Boot) : Prop where
  fate : ∀ k : ℕ, k ≠ i → b'.fate[k]? = b.fate[k]?
  calls : ∀ x, x ≠ v.id → b'.policyCalls x = b.policyCalls x
  seen : ∀ x, x ≠ v.id → b'.seen.get x = b.seen.get x
  clean : ∀ x, x ≠ v.id → Clean l b.tables x → Clean l b'.tables x
  verbs : ∀ k, k ≠ i → b'.verbs.get k = b.verbs.get k
  inspects : ∀ k, k ≠ i → b'.inspects.get k = b.inspects.get k
  names : ∀ name, name ≠ v.name → b'.busyCreates.get name = b.busyCreates.get name
  chans : b.nextChan ≤ b'.nextChan
  waits : ∀ k, k ≠ i → k ∈ b.pending → k ∈ b'.pending
  pending : b.pending = [] → b'.pending = []

section Apart
variable {l : Listing} {i k : ℕ} {v u : VM} {b b' : Boot}

theorem Boot.Apart.untouched (h : Boot.Apart l i v b b') {x : VMID} (hx : x ≠ v.id)
    (hu : LeftAlone l b x) : LeftAlone l b' x :=
  ⟨h.clean x hx hu.clean, (h.calls x hx).trans hu.calls⟩

theorem Boot.Apart.seenSettled (h : Boot.Apart l i v b b') {x : VMID} (hx : x ≠ v.id)
    (hs : SeenSettled b x) : SeenSettled b' x := by
  unfold SeenSettled
  rw [h.seen x hx]
  exact hs

theorem Boot.Apart.is (h : Boot.Apart l i v b b') (hki : k ≠ i) (hu : u.id ≠ v.id) {f : Fate}
    (hf : f.Is l b k u) : f.Is l b' k u := by
  constructor
  · rw [h.inspects k hki]
    exact hf.expected
  · have hholds := hf.holds
    cases f with
    | pending => exact h.untouched hu hholds
    | kept w => exact ⟨hholds.1, h.seenSettled hu hholds.2⟩
    | freed =>
      refine ⟨h.untouched hu hholds.1, ?_⟩
      unfold FreedBy
      rw [h.verbs k hki, h.inspects k hki]
      exact hholds.2
    | orphaned => exact ⟨(h.calls _ hu).trans hholds.1, h.seenSettled hu hholds.2⟩
    | held n =>
      refine ⟨(h.calls _ hu).trans_le hholds.1, ?_⟩
      exact hholds.2.imp (h.seenSettled hu) (h.clean _ hu)

/- The invariant after a step about one record needs a look at that record only. -/
theorem Boot.Apart.inv (h : Boot.Apart l i v b b') (hv : l.vms[i]? = some v) (hb : BootInv l b)
    (hkeep : b'.keep = b'.fate.map Fate.keep) (hlen : b'.fate.length = b.fate.length)
    (hwait : b'.fate[i]? = some .pending → i ∈ b'.pending)
    (his : ∀ f, b'.fate[i]? = some f → f.Is l b' i v) : BootInv l b' := by
  refine ⟨hkeep, hlen.trans hb.length, fun k hk => ?_, fun x s hs => ?_, fun k u f hu hf => ?_⟩
  · by_cases hki : k = i
    · subst hki
      exact hwait hk
    · rw [h.fate k hki] at hk
      exact h.waits k hki (hb.waits k hk)
  · by_cases hx : x = v.id
    · exact ⟨i, v, hv, hx.symm⟩
    · rw [h.seen x hx] at hs
      exact hb.seen x s hs
  · by_cases hki : k = i
    · subst hki
      rw [hv] at hu
      cases hu
      exact his f hf
    · rw [h.fate k hki] at hf
      exact h.is hki (Listing.id_ne hv hu hki) (hb.fates k u f hu hf)

theorem Boot.Apart.closure (h : Boot.Apart l i v b b') (hv : l.vms[i]? = some v) {x : Closure}
    (hx : x.index ≠ i) (hinv : x.Inv l b) : x.Inv l b' := by
  have hid := Listing.id_ne hv hinv.listed hx
  refine ⟨hinv.listed, fun hpc => (h.fate _ hx).trans (hinv.pending hpc), fun u hu => ?_⟩
  obtain ⟨hu, hs⟩ := hinv.orphan u hu
  exact ⟨hu, h.seenSettled hid hs⟩

theorem Boot.Apart.watcher (h : Boot.Apart l i v b b') (hv : l.vms[i]? = some v) {w : BusyWatcher}
    (hki : k ≠ i) (hw : w.Inv l b k u) : w.Inv l b' k u := by
  have hid := Listing.id_ne hv hw.listed hki
  have hname := Listing.name_ne hv hw.listed hki
  constructor
  · exact hw.listed
  · exact hw.vmID
  · exact hw.name
  · rw [h.fate k hki]
    exact hw.held
  · exact Nat.lt_of_lt_of_le hw.made h.chans
  · rw [h.names _ hname]
    exact hw.busy
  · intro hopen
    exact h.untouched hid (hw.waiting hopen)
  · intro s hs
    obtain ⟨hsid, hseen, hcalls⟩ := hw.settled s hs
    exact ⟨hsid, h.seenSettled hid hseen, (h.calls _ hid).trans hcalls⟩

/- The main thread counts on records that are kept. -/
theorem Boot.Apart.keptUncalled (h : Boot.Apart l i v b b') (hv : l.vms[i]? = some v)
    (hb : BootInv l b) (hnew : ∀ u, b'.fate[i]? = some (.kept u) → b'.policyCalls u.id = 0)
    (hk : KeptUncalled b) : KeptUncalled b' := by
  intro k u hf
  by_cases hki : k = i
  · subst hki
    exact hnew u hf
  · rw [h.fate k hki] at hf
    have hlt : k < l.vms.length := by
      rw [← hb.length]
      exact (List.getElem?_eq_some_iff.mp hf).1
    have hu : l.vms[k]? = some l.vms[k] := List.getElem?_eq_getElem hlt
    have hid : u.id = l.vms[k].id := (hb.fates k _ _ hu hf).holds.1
    rw [h.calls _ (by rw [hid]; exact Listing.id_ne hv hu hki)]
    exact hk k u hf

/- Without a note in the tables or the policy's log every part is left alone. -/
theorem Boot.Apart.refl : Boot.Apart l i v b b :=
  ⟨fun _ _ => rfl, fun _ _ => rfl, fun _ _ => rfl, fun _ _ h => h, fun _ _ => rfl, fun _ _ => rfl,
    fun _ _ => rfl, le_rfl, fun _ _ h => h, fun h => h⟩

theorem Boot.Apart.finish (h : Boot.Apart l i v b b') (f : Fate) :
    Boot.Apart l i v b (b'.finish i f) := by
  refine ⟨fun k hk => ?_, h.calls, h.seen, h.clean, h.verbs, h.inspects, h.names, h.chans,
    fun k hk hp => ?_, fun hp => ?_⟩
  · exact (List.getElem?_set_ne (Ne.symm hk)).trans (h.fate k hk)
  · exact List.mem_filter.mpr ⟨h.waits k hk hp, decide_eq_true hk⟩
  · have hnil := h.pending hp
    simp only [Boot.finish, hnil, List.filter_nil]

/- What a fate says of a record is read off fields that `finish` does not write. -/
theorem Fate.Is.finish {f : Fate} (h : f.Is l b k u) (i : ℕ) (g : Fate) :
    f.Is l (b.finish i g) k u := by
  refine ⟨h.expected, ?_⟩
  have hholds := h.holds
  cases f with
  | pending => exact ⟨hholds.clean, hholds.calls⟩
  | freed => exact ⟨⟨hholds.1.clean, hholds.1.calls⟩, hholds.2⟩
  | kept _ | orphaned | held _ => exact hholds

theorem Boot.Apart.finish_inv (h : Boot.Apart l i v b b') (hv : l.vms[i]? = some v)
    (hb : BootInv l b) (hkeep : b'.keep = b.keep) (hfate : b'.fate = b.fate) {f : Fate}
    (hf : f ≠ .pending) (his : f.Is l b' i v) : BootInv l (b'.finish i f) := by
  have hi : i < b'.fate.length := by
    rw [hfate, hb.length]
    exact (List.getElem?_eq_some_iff.mp hv).1
  have hget : (b'.finish i f).fate[i]? = some f := List.getElem?_set_self hi
  refine (h.finish f).inv hv hb ?_ ?_ (fun hp => ?_) fun g hg => ?_
  · simp only [Boot.finish, hkeep, hfate, hb.keep, List.map_set]
  · simp only [Boot.finish, List.length_set, hfate]
  · rw [hget] at hp
    exact absurd (Option.some.inj hp) hf
  · rw [hget] at hg
    cases hg
    exact his.finish i f

/- A step that takes notes only. -/
theorem Boot.Apart.note_inv (h : Boot.Apart l i v b b') (hv : l.vms[i]? = some v) (hb : BootInv l b)
    (hkeep : b'.keep = b.keep) (hfate : b'.fate = b.fate) (hpending : b'.pending = b.pending)
    (his : ∀ f, b.fate[i]? = some f → f.Is l b' i v) : BootInv l b' := by
  refine h.inv hv hb ?_ (by rw [hfate]) (fun hp => ?_) fun f hf => his f (hfate ▸ hf)
  · rw [hkeep, hfate]
    exact hb.keep
  · rw [hpending]
    exact hb.waits i (hfate ▸ hp)

theorem clean_index {t : Tables} {x : VMID} (h : Clean l t x) (hu : x ≠ u.id) :
    Clean l (t.indexOrphanByNameLocked u) x := by
  refine run_records id (.indexOrphanByName u) h (by rintro _ _ _ ⟨⟩) (by rintro _ _ ⟨⟩) ?_
  intro w hw hid
  cases hw
  exact absurd hid.symm hu

theorem clean_handleOrphan (policy : OrphanPolicy) {t : Tables} {x : VMID} (h : Clean l t x)
    (hu : x ≠ u.id) : Clean l (handleOrphan policy (t, []) u).1 x := by
  cases policy with
  | destroy => exact h
  | alert => exact clean_index h hu
  | keep => exact clean_index h hu

theorem policyCalls_handleOrphan (policy : OrphanPolicy) (b : Boot) (u : VM) (x : VMID) :
    { b with toBusy := b.toBusy.handleOrphan policy u }.policyCalls x =
      b.policyCalls x + if u.id = x then 1 else 0 := by
  simp only [Boot.policyCalls, Busy.handleOrphan, List.countP_append, List.countP_singleton,
    beq_iff_eq]

theorem apart_handleOrphan (policy : OrphanPolicy) (hid : u.id = v.id) :
    Boot.Apart l i v b { b with toBusy := b.toBusy.handleOrphan policy u } := by
  refine ⟨fun _ _ => rfl, fun x hx => ?_, fun _ _ => rfl, fun x hx hc => ?_, fun _ _ => rfl,
    fun _ _ => rfl, fun _ _ => rfl, le_rfl, fun _ _ h => h, fun h => h⟩
  · rw [policyCalls_handleOrphan, if_neg (by rw [hid]; exact Ne.symm hx), Nat.add_zero]
  · exact clean_handleOrphan policy hc (by rw [hid]; exact hx)

end Apart

/-! ### The closures -/

section Closure
variable {l : Listing} {policy : OrphanPolicy} {b b' : Boot} {x : Closure}

/-- What a step of a closure brings about. -/
structure Closure.Step (l : Listing) (b : Boot) (x : Closure) (b' : Boot) (pc' : StalePC)
    (new : List BootThread) : Prop where
  apart : Boot.Apart l x.index x.v b b'
  inv : BootInv l b'
  own : { x with pc := pc' }.Inv l b'
  live : x.pc ≠ .done
  kept : ∀ u, b'.fate[x.index]? = some (.kept u) → b'.policyCalls u.id = 0
  new : (new = [] ∧ ∀ n, b'.fate[x.index]? ≠ some (.held n)) ∨
    ∃ w, new = [.watcher w] ∧ w.settled = b.nextChan ∧ w.Inv l b' x.index x.v

/- A closure that goes on. -/
theorem Closure.step_note (hb : BootInv l b) (hx : x.Inv l b) (hlive : x.pc ≠ .done)
    (hapart : Boot.Apart l x.index x.v b b') (hkeep : b'.keep = b.keep) (hfate : b'.fate = b.fate)
    (hpending : b'.pending = b.pending) (huntouched : LeftAlone l b' x.v.id)
    (hanswer : runningAnswer (b'.inspects.get x.index) = none) {pc' : StalePC}
    (horphan : ∀ v, pc' = .orphan v → v.id = x.v.id ∧ SeenSettled b' x.v.id) :
    x.Step l b b' pc' [] := by
  have hf := hx.pending hlive
  have hf' : b'.fate[x.index]? = some .pending := hfate ▸ hf
  have hwas := (hb.fates _ _ _ hx.listed hf).expected
  refine ⟨hapart, ?_, ⟨hx.listed, fun _ => hf', horphan⟩, hlive, fun u hu => ?_,
    Or.inl ⟨rfl, fun n hn => ?_⟩⟩
  · refine hapart.note_inv hx.listed hb hkeep hfate hpending fun f hff => ?_
    rw [hf] at hff
    cases hff
    refine ⟨?_, huntouched⟩
    split
    · exact hanswer
    next hs => rwa [if_neg hs] at hwas
  · rw [hf'] at hu
    cases hu
  · rw [hf'] at hn
    cases hn

/- A closure that returns. -/
theorem Closure.step_finish (hb : BootInv l b) (hx : x.Inv l b) (hlive : x.pc ≠ .done)
    (hapart : Boot.Apart l x.index x.v b b') (hkeep : b'.keep = b.keep) (hfate : b'.fate = b.fate)
    (f : Fate) (hf : f ≠ .pending) (his : f.Is l b' x.index x.v)
    (hkept : ∀ u, f = .kept u → b'.policyCalls u.id = 0) {new : List BootThread}
    (hnew : (new = [] ∧ ∀ n, f ≠ .held n) ∨ ∃ w, new = [.watcher w] ∧ w.settled = b.nextChan ∧
      w.Inv l (b'.finish x.index f) x.index x.v) :
    x.Step l b (b'.finish x.index f) .done new := by
  have hi : x.index < b'.fate.length := by
    rw [hfate, hb.length]
    exact (List.getElem?_eq_some_iff.mp hx.listed).1
  have hget : (b'.finish x.index f).fate[x.index]? = some f := List.getElem?_set_self hi
  refine ⟨hapart.finish f, hapart.finish_inv hx.listed hb hkeep hfate hf his, ?_, hlive, fun u hu => ?_, ?_⟩
  · exact ⟨hx.listed, fun h => absurd rfl h, by rintro _ ⟨⟩⟩
  · rw [hget] at hu
    exact hkept u (Option.some.inj hu)
  · refine hnew.imp_left fun hno => ⟨hno.1, fun n hn => ?_⟩
    rw [hget] at hn
    exact hno.2 n (Option.some.inj hn)

/- A record whose closure runs is a placeholder that nobody has touched. -/
theorem Closure.Inv.pending_is (hb : BootInv l b) (hx : x.Inv l b) (hlive : x.pc ≠ .done) :
    x.v.state = .creating ∧ runningAnswer (b.inspects.get x.index) = none ∧ LeftAlone l b x.v.id := by
  have his := hb.fates _ _ _ hx.listed (hx.pending hlive)
  have hexpected := his.expected
  split at hexpected
  next hs => exact ⟨hs, hexpected, his.holds⟩
  next => cases hexpected

theorem Closure.step_verb (hb : BootInv l b) (hx : x.Inv l b) (hpc : x.pc = .verb)
    {outcome : Option StaleCreateOutcome} (hdef : ∀ text, outcome ≠ some (.other text)) {pc' : StalePC}
    {new : List BootThread} (h : x.step policy b (.verb outcome) = some (b', pc', new)) :
    x.Step l b b' pc' new := by
  have hlive : x.pc ≠ .done := by rw [hpc]; rintro ⟨⟩
  obtain ⟨hs, hanswer, hun⟩ := hx.pending_is hb hlive
  have hapart : Boot.Apart l x.index x.v b { b with verbs := b.verbs.set x.index outcome } := by
    refine ⟨fun _ _ => rfl, fun _ _ => rfl, fun _ _ => rfl, fun _ _ h => h, fun k hk => ?_,
      fun _ _ => rfl, fun _ _ => rfl, le_rfl, fun _ _ h => h, fun h => h⟩
    exact GoMap.get_set_ne _ _ hk
  have hun' : LeftAlone l { b with verbs := b.verbs.set x.index outcome } x.v.id := ⟨hun.clean, hun.calls⟩
  have hnote : ∀ pc', (∀ v, pc' ≠ .orphan v) →
      x.Step l b { b with verbs := b.verbs.set x.index outcome } pc' [] := fun pc' hno =>
    Closure.step_note hb hx hlive hapart rfl rfl rfl hun' hanswer fun v hv => absurd hv (hno v)
  have hfreed : outcome = some .collected ∨ outcome = some .notFound →
      x.Step l b ({ b with verbs := b.verbs.set x.index outcome }.finish x.index .freed) .done [] := by
    intro ho
    refine Closure.step_finish hb hx hlive hapart rfl rfl .freed (by rintro ⟨⟩) ⟨?_, hun', ?_⟩
      (by rintro _ ⟨⟩) (Or.inl ⟨rfl, by rintro _ ⟨⟩⟩)
    · rw [if_pos hs]
      exact hanswer
    · rcases ho with rfl | rfl
      · exact Or.inl (GoMap.get_set_self _ _ _)
      · exact Or.inr (Or.inl (GoMap.get_set_self _ _ _))
  simp only [Closure.step, hpc] at h
  cases outcome with
  | none =>
    cases h
    exact hnote _ (by rintro _ ⟨⟩)
  | some o =>
    cases o with
    | collected =>
      cases h
      exact hfreed (Or.inl rfl)
    | notFound =>
      cases h
      exact hfreed (Or.inr rfl)
    | busy =>
      cases h
      exact hnote _ (by rintro _ ⟨⟩)
    | notCreating =>
      cases h
      exact hnote _ (by rintro _ ⟨⟩)
    | other text => exact absurd rfl (hdef text)

/- The notes of an inspect. -/
theorem apart_inspected (i : ℕ) (v : VM) (answer : Inspected) : Boot.Apart l i v b
    { b with toBusy := b.toBusy.observe v.id answer, inspects := b.inspects.set i answer } := by
  have hbusy : ∀ y, y ≠ v.id → (b.toBusy.observe v.id answer).seen.get y = b.seen.get y := by
    intro y hy
    cases answer with
    | found u => exact GoMap.get_set_ne _ _ hy
    | notFound | failed => rfl
  have hrest : ∃ seen, b.toBusy.observe v.id answer = { b.toBusy with seen := seen } := by
    cases answer <;> exact ⟨_, rfl⟩
  obtain ⟨seen, hrest⟩ := hrest
  rw [hrest] at hbusy ⊢
  refine ⟨fun _ _ => rfl, fun _ _ => rfl, hbusy, fun _ _ h => h, fun _ _ => rfl, fun k hk => ?_,
    fun _ _ => rfl, le_rfl, fun _ _ h => h, fun h => h⟩
  exact GoMap.get_set_ne _ _ hk

theorem Closure.step_inspect (hb : BootInv l b) (hx : x.Inv l b) (hpc : x.pc = .inspect)
    {answer : Inspected} {pc' : StalePC} {new : List BootThread}
    (h : x.step policy b (.inspected answer) = some (b', pc', new)) : x.Step l b b' pc' new := by
  have hlive : x.pc ≠ .done := by rw [hpc]; rintro ⟨⟩
  obtain ⟨hs, -, hun⟩ := hx.pending_is hb hlive
  have hapart := apart_inspected (l := l) (b := b) x.index x.v answer
  simp only [Closure.step, hpc] at h
  split at h
  next habout =>
    generalize hb₁ : ({ b with
      toBusy := b.toBusy.observe x.v.id answer, inspects := b.inspects.set x.index answer } : Boot) = b₁
      at h hapart
    have hkeep : b₁.keep = b.keep := by rw [← hb₁]
    have hfate : b₁.fate = b.fate := by rw [← hb₁]
    have hpending : b₁.pending = b.pending := by rw [← hb₁]
    have hnoted : b₁.inspects.get x.index = some answer := by
      rw [← hb₁]
      exact GoMap.get_set_self _ _ _
    have hun₁ : LeftAlone l b₁ x.v.id := by
      rw [← hb₁]
      cases answer <;> exact ⟨hun.clean, hun.calls⟩
    have hseen : ∀ u, answer = .found u → u.state ≠ .creating → SeenSettled b₁ x.v.id := by
      rintro u rfl hu hget
      rw [← hb₁] at hget
      exact hu (Option.some.inj ((GoMap.get_set_self _ _ _).symm.trans hget))
    rcases classifySettledCreate_cases answer with ⟨hc, rfl⟩ | ⟨hc, hnot⟩ | ⟨u, rfl, hu, hc⟩ |
      ⟨u, text, rfl, hu, hc⟩ <;> rw [hc] at h <;> cases h
    · refine Closure.step_finish hb hx hlive hapart hkeep hfate .freed (by rintro ⟨⟩) ⟨?_, hun₁, ?_⟩
        (by rintro _ ⟨⟩) (Or.inl ⟨rfl, by rintro _ ⟨⟩⟩)
      · rw [if_pos hs, hnoted]
        rfl
      · exact Or.inr (Or.inr hnoted)
    · refine Closure.step_note hb hx hlive hapart hkeep hfate hpending hun₁ ?_ (by rintro _ ⟨⟩)
      rw [hnoted]
      cases answer with
      | found u => exact if_neg (hnot u rfl)
      | notFound | failed => rfl
    · have hid : u.id = x.v.id := beq_iff_eq.mp habout
      refine Closure.step_finish hb hx hlive hapart hkeep hfate (.kept u) (by rintro ⟨⟩)
        ⟨?_, hid, hseen u rfl (by rw [hu]; rintro ⟨⟩)⟩ ?_ (Or.inl ⟨rfl, by rintro _ ⟨⟩⟩)
      · rw [if_pos hs, hnoted]
        exact if_pos hu
      · rintro w ⟨⟩
        rw [hid]
        exact hun₁.calls
    · have hid : u.id = x.v.id := beq_iff_eq.mp habout
      refine Closure.step_note hb hx hlive hapart hkeep hfate hpending hun₁ ?_ ?_
      · rw [hnoted]
        exact if_neg (by rw [hu]; rintro ⟨⟩)
      · rintro w ⟨⟩
        exact ⟨hid, hseen u rfl (by rw [hu]; rintro ⟨⟩)⟩
  next => cases h

theorem Closure.step_orphan (hb : BootInv l b) (hx : x.Inv l b) {u : VM} (hpc : x.pc = .orphan u)
    {pc' : StalePC} {new : List BootThread} (h : x.step policy b .go = some (b', pc', new)) :
    x.Step l b b' pc' new := by
  have hlive : x.pc ≠ .done := by rw [hpc]; rintro ⟨⟩
  obtain ⟨hs, hanswer, hun⟩ := hx.pending_is hb hlive
  obtain ⟨hid, hseen⟩ := hx.orphan u hpc
  simp only [Closure.step, hpc] at h
  cases h
  refine Closure.step_finish hb hx hlive (apart_handleOrphan policy hid) rfl rfl .orphaned (by rintro ⟨⟩)
    ⟨?_, ?_, hseen⟩ (by rintro _ ⟨⟩) (Or.inl ⟨rfl, by rintro _ ⟨⟩⟩)
  · rw [if_pos hs]
    exact hanswer
  · rw [policyCalls_handleOrphan, if_pos hid, hun.calls]

theorem Closure.step_watch (hb : BootInv l b) (hx : x.Inv l b) (hpc : x.pc = .watch)
    {pc' : StalePC} {new : List BootThread} (h : x.step policy b .go = some (b', pc', new)) :
    x.Step l b b' pc' new := by
  have hlive : x.pc ≠ .done := by rw [hpc]; rintro ⟨⟩
  obtain ⟨hs, hanswer, hun⟩ := hx.pending_is hb hlive
  simp only [Closure.step, hpc] at h
  cases h
  generalize hb₁ : ({ b with toBusy := (b.toBusy.watchBusyCreate x.v.id x.v.name).1 } : Boot) = b₁
  have hapart : Boot.Apart l x.index x.v b b₁ := by
    rw [← hb₁]
    refine ⟨fun _ _ => rfl, fun _ _ => rfl, fun _ _ => rfl, fun _ _ h => h, fun _ _ => rfl,
      fun _ _ => rfl, fun name hname => ?_, Nat.le_succ _, fun _ _ h => h, fun h => h⟩
    exact GoMap.get_set_ne _ _ hname
  have hun₁ : LeftAlone l b₁ x.v.id := by
    rw [← hb₁]
    exact ⟨hun.clean, hun.calls⟩
  have hi : x.index < b₁.fate.length := by
    rw [← hb₁, hb.length]
    exact (List.getElem?_eq_some_iff.mp hx.listed).1
  refine Closure.step_finish hb hx hlive hapart (by rw [← hb₁]) (by rw [← hb₁]) (.held _) (by rintro ⟨⟩)
    ⟨?_, ?_⟩ (by rintro _ ⟨⟩) (Or.inr ⟨_, rfl, rfl, ?_⟩)
  · rw [if_pos hs, ← hb₁]
    exact hanswer
  · exact ⟨by rw [hun₁.calls]; exact Nat.zero_le 1, Or.inr hun₁.clean⟩
  · refine ⟨hx.listed, rfl, rfl, List.getElem?_set_self hi, ?_, fun _ => ?_, fun _ => ?_, by rintro _ ⟨⟩⟩
    · rw [← hb₁]
      exact Nat.lt_succ_self _
    · rw [← hb₁]
      exact GoMap.get_set_self _ _ _
    · exact ⟨hun₁.clean, hun₁.calls⟩

theorem Closure.step_spec (hb : BootInv l b) (hx : x.Inv l b) {a : BootAnswer}
    (hdef : ∀ text, a ≠ .verb (some (.other text))) {pc' : StalePC} {new : List BootThread}
    (h : x.step policy b a = some (b', pc', new)) : x.Step l b b' pc' new := by
  cases hpc : x.pc with
  | verb =>
    cases a with
    | verb outcome =>
      exact Closure.step_verb hb hx hpc (fun text ho => hdef text (by rw [ho])) h
    | _ =>
      simp only [Closure.step, hpc] at h
      cases h
  | inspect =>
    cases a with
    | inspected answer => exact Closure.step_inspect hb hx hpc h
    | _ =>
      simp only [Closure.step, hpc] at h
      cases h
  | orphan u =>
    cases a with
    | go => exact Closure.step_orphan hb hx hpc h
    | _ =>
      simp only [Closure.step, hpc] at h
      cases h
  | watch =>
    cases a with
    | go => exact Closure.step_watch hb hx hpc h
    | _ =>
      simp only [Closure.step, hpc] at h
      cases h
  | done =>
    simp only [Closure.step, hpc] at h
    cases h

end Closure

/-! ### The watchers -/

section Watcher
variable {l : Listing} {policy : OrphanPolicy} {b : Boot} {w : BusyWatcher} {i : ℕ} {v : VM}

/-- What a step of the watcher of `v` brings about. -/
structure BusyWatcher.Step (l : Listing) (b : Boot) (w : BusyWatcher) (i : ℕ) (v : VM) (busy : Busy)
    (pc' : BusyPC) : Prop where
  apart : Boot.Apart l i v b { b with toBusy := busy }
  inv : BootInv l { b with toBusy := busy }
  own : { w with pc := pc' }.Inv l { b with toBusy := busy } i v

/- The record of a watcher stays held, whatever the watcher does about it. -/
theorem BusyWatcher.Inv.step (hb : BootInv l b) (hw : w.Inv l b i v) {busy : Busy} {pc' : BusyPC}
    (hapart : Boot.Apart l i v b { b with toBusy := busy })
    (hcalls : { b with toBusy := busy : Boot }.policyCalls v.id ≤ 1)
    (hseen : SeenSettled { b with toBusy := busy } v.id ∨ Clean l busy.tables v.id)
    (hbusy : pc' ≠ .done → busy.busyCreates.get v.name = some w.settled)
    (hopen : pc'.open = true → LeftAlone l { b with toBusy := busy } v.id)
    (hrec : ∀ u, pc'.record = some u → u.id = v.id ∧ SeenSettled { b with toBusy := busy } v.id ∧
      { b with toBusy := busy : Boot }.policyCalls v.id = 0) : w.Step l b i v busy pc' := by
  refine ⟨hapart, ?_, hw.listed, hw.vmID, hw.name, hw.held, ?_, hbusy, hopen, hrec⟩
  · refine hapart.note_inv hw.listed hb rfl rfl rfl fun f hf => ?_
    rw [hw.held] at hf
    cases hf
    have hwas := hb.fates _ _ _ hw.listed hw.held
    exact ⟨hwas.expected, hcalls, hseen⟩
  · exact Nat.lt_of_lt_of_le hw.made hapart.chans

theorem BusyWatcher.step_spec (hb : BootInv l b) (hw : w.Inv l b i v) {a : BusyAnswer} {busy : Busy}
    {pc' : BusyPC} (h : w.step policy b.toBusy a = some (busy, pc')) : w.Step l b i v busy pc' := by
  obtain ⟨hcalls, hseen⟩ := (hb.fates _ _ _ hw.listed hw.held).holds
  cases BusyWatcher.step_moves h with
  | idle _ hopen hrec hdone hlive =>
    refine hw.step hb .refl hcalls hseen (fun _ => hw.busy hlive) (fun ho => hw.waiting (hopen ho)) ?_
    intro u hu
    rcases hrec with hnone | hsame
    · rw [hnone] at hu
      cases hu
    · exact hw.settled u (hsame ▸ hu)
  | observes u _ hpc hid hrec hdone =>
    have hun := hw.waiting (by rw [hpc]; rfl)
    refine hw.step hb ?_ hcalls (Or.inr hun.clean) (fun _ => hw.busy (by rw [hpc]; rintro ⟨⟩))
      (fun _ => ⟨hun.clean, hun.calls⟩) ?_
    · refine ⟨fun _ _ => rfl, fun _ _ => rfl, fun x hx => ?_, fun _ _ h => h, fun _ _ => rfl,
        fun _ _ => rfl, fun _ _ => rfl, le_rfl, fun _ _ h => h, fun h => h⟩
      exact GoMap.get_set_ne _ _ (by rw [hw.vmID]; exact hx)
    · intro s hs
      obtain ⟨rfl, hstate⟩ := hrec s hs
      refine ⟨hid.trans hw.vmID, fun hget => hstate ?_, hun.calls⟩
      rw [hw.vmID] at hget
      exact Option.some.inj ((GoMap.get_set_self _ _ _).symm.trans hget)
  | indexes u hpc =>
    obtain ⟨hid, hsettled, hzero⟩ := hw.settled u (by rw [hpc]; rfl)
    refine hw.step hb ?_ hcalls (Or.inl hsettled) (fun _ => hw.busy (by rw [hpc]; rintro ⟨⟩))
      (by rintro ⟨⟩) (by rintro _ ⟨⟩)
    refine ⟨fun _ _ => rfl, fun _ _ => rfl, fun _ _ => rfl, fun x hx hc => ?_, fun _ _ => rfl,
      fun _ _ => rfl, fun _ _ => rfl, le_rfl, fun _ _ h => h, fun h => h⟩
    exact clean_index hc (by rw [hid]; exact hx)
  | orphans u hpc =>
    obtain ⟨hid, hsettled, hzero⟩ := hw.settled u (by rw [hpc]; rfl)
    refine hw.step hb (apart_handleOrphan policy hid) ?_ (Or.inl hsettled)
      (fun _ => hw.busy (by rw [hpc]; rintro ⟨⟩)) (by rintro ⟨⟩) (by rintro _ ⟨⟩)
    rw [policyCalls_handleOrphan, if_pos hid, hzero]
  | settles hpc =>
    refine hw.step hb ?_ hcalls hseen (fun h => absurd rfl h) (by rintro ⟨⟩) (by rintro _ ⟨⟩)
    refine ⟨fun _ _ => rfl, fun _ _ => rfl, fun _ _ => rfl, fun _ _ h => h, fun _ _ => rfl,
      fun _ _ => rfl, fun name hname => ?_, le_rfl, fun _ _ h => h, fun h => h⟩
    simp only [Busy.settleBusyCreate]
    split
    · exact GoMap.get_del_ne _ (by rw [hw.name]; exact hname)
    · rfl

end Watcher

/-! ### The rest of startup -/

section Main
variable {l : Listing} {b : Boot}

theorem BootInv.kept_eq (hb : BootInv l b) : b.kept = b.fate.filterMap Fate.keep := by
  simp only [Boot.kept, hb.keep, List.filterMap_map, Function.id_comp]

theorem BootInv.mem_kept (hb : BootInv l b) {u : VM} :
    u ∈ b.kept ↔ ∃ i : ℕ, b.fate[i]? = some (.kept u) := by
  have hkeep : ∀ f : Fate, f.keep = some u ↔ f = .kept u := by
    intro f
    cases f <;> simp [Fate.keep]
  rw [hb.kept_eq, List.mem_filterMap, ← List.mem_iff_getElem?]
  simp only [hkeep, exists_eq_right]

/- A kept record has the ID of the record at its index. -/
theorem BootInv.kept_id (hb : BootInv l b) {i : ℕ} {u : VM} (h : b.fate[i]? = some (.kept u)) :
    ∃ v, l.vms[i]? = some v ∧ u.id = v.id := by
  have hlt : i < l.vms.length := by
    rw [← hb.length]
    exact (List.getElem?_eq_some_iff.mp h).1
  have hv : l.vms[i]? = some l.vms[i] := List.getElem?_eq_getElem hlt
  exact ⟨_, hv, (hb.fates i _ _ hv h).holds.1⟩

theorem BootInv.kept_ids_nodup (hb : BootInv l b) : (b.kept.map VM.id).Nodup := by
  have hall : List.Forall₂ (fun (f : Fate) (v : VM) => ∀ u, f.keep = some u → u.id = v.id) b.fate l.vms := by
    refine List.forall₂_iff_get.mpr ⟨hb.length, fun i h₁ h₂ u hu => ?_⟩
    have hf : b.fate[i]? = some (b.fate.get ⟨i, h₁⟩) := List.getElem?_eq_getElem h₁
    have hv : l.vms[i]? = some (l.vms.get ⟨i, h₂⟩) := List.getElem?_eq_getElem h₂
    have his := (hb.fates i _ _ hv hf).holds
    generalize b.fate.get ⟨i, h₁⟩ = f at hu his
    cases f <;> cases hu
    exact his.1
  have hsub : ∀ (fs : List Fate) (vs : List VM),
      List.Forall₂ (fun (f : Fate) (v : VM) => ∀ u, f.keep = some u → u.id = v.id) fs vs →
      ((fs.filterMap Fate.keep).map VM.id).Sublist (vs.map VM.id) := by
    intro fs vs h
    induction h with
    | nil => exact .slnil
    | @cons f v fs vs hfv _ ih =>
      cases hk : f.keep with
      | none =>
        rw [List.filterMap_cons_none hk, List.map_cons]
        exact ih.cons _
      | some u =>
        rw [List.filterMap_cons_some hk, List.map_cons, List.map_cons, hfv u hk]
        exact ih.cons_cons _
  rw [hb.kept_eq]
  exact (hsub _ _ hall).nodup l.ids_nodup

/-- A step of the main thread as the other threads see it: it writes the tables and the log of the
policy, and nothing about a record that was not kept. -/
def Boot.Writes (l : Listing) (b : Boot) (t : Tables) (orphaned : List VM) : Prop :=
  ∀ (k : ℕ) (u : VM) (f : Fate), l.vms[k]? = some u → b.fate[k]? = some f → f.keep = none →
    (Clean l b.tables u.id → Clean l t u.id) ∧
      orphaned.countP (·.id == u.id) = b.policyCalls u.id

/-- The state after such a step. -/
def Boot.write (b : Boot) (t : Tables) (orphaned : List VM) : Boot :=
  { b with toBusy := { b.toBusy with tables := t, orphaned := orphaned } }

variable {t : Tables} {orphaned : List VM}

theorem Boot.Writes.untouched (h : b.Writes l t orphaned) {k : ℕ} {u : VM} {f : Fate}
    (hu : l.vms[k]? = some u) (hf : b.fate[k]? = some f) (hnone : f.keep = none)
    (hun : LeftAlone l b u.id) : LeftAlone l (b.write t orphaned) u.id := by
  obtain ⟨hclean, hcalls⟩ := h k u f hu hf hnone
  exact ⟨hclean hun.clean, hcalls.trans hun.calls⟩

theorem Boot.Writes.inv (h : b.Writes l t orphaned) (hb : BootInv l b) :
    BootInv l (b.write t orphaned) := by
  refine ⟨hb.keep, hb.length, hb.waits, hb.seen, fun k u f hu hf => ?_⟩
  have hf : b.fate[k]? = some f := hf
  have his := hb.fates k u f hu hf
  refine ⟨his.expected, ?_⟩
  have hholds := his.holds
  cases f with
  | pending => exact h.untouched hu hf rfl hholds
  | kept w => exact hholds
  | freed => exact ⟨h.untouched hu hf rfl hholds.1, hholds.2⟩
  | orphaned =>
    obtain ⟨-, hcalls⟩ := h k u _ hu hf rfl
    exact ⟨hcalls.trans hholds.1, hholds.2⟩
  | held n =>
    obtain ⟨hclean, hcalls⟩ := h k u _ hu hf rfl
    exact ⟨hcalls.trans_le hholds.1, hholds.2.imp_right hclean⟩

theorem Boot.Writes.closure {x : Closure} (hx : x.Inv l b) : x.Inv l (b.write t orphaned) :=
  ⟨hx.listed, hx.pending, hx.orphan⟩

theorem Boot.Writes.watcher (h : b.Writes l t orphaned) {w : BusyWatcher} {i : ℕ} {v : VM}
    (hw : w.Inv l b i v) : w.Inv l (b.write t orphaned) i v := by
  obtain ⟨-, hcalls⟩ := h i v _ hw.listed hw.held rfl
  refine ⟨hw.listed, hw.vmID, hw.name, hw.held, hw.made, hw.busy, fun ho => ?_, fun u hu => ?_⟩
  · exact h.untouched hw.listed hw.held rfl (hw.waiting ho)
  · obtain ⟨hid, hseen, hzero⟩ := hw.settled u hu
    exact ⟨hid, hseen, hcalls.trans hzero⟩

/- The records the startup has for a pod are kept ones, or those of the pod's annotations. -/
theorem takes_apart (hb : BootInv l b) {pod : Pod} (hpod : pod ∈ l.pods) {a : Findings}
    (hmac : isMacosSpec pod.spec = true → a.macosVM.all (·.id == macosVMID pod.spec.vmName) = true)
    {k : ℕ} {v u : VM} {f : Fate} (hv : l.vms[k]? = some v) (hf : b.fate[k]? = some f)
    (hnone : f.keep = none) (htakes : Takes pod (b.findings a pod) u) (hid : u.id = v.id) :
    Annotates l v.id pod ∧ pod.spec.vmName = u.name := by
  have hkept : u ∉ b.kept := by
    intro hu
    obtain ⟨i, hi⟩ := hb.mem_kept.mp hu
    obtain ⟨w, hw, hwid⟩ := hb.kept_id hi
    by_cases hki : i = k
    · subst hki
      rw [hf] at hi
      cases hi
      cases hnone
    · exact Listing.id_ne hv hw hki (hwid.symm.trans hid)
  cases htakes with
  | annotated addr hm hset hu =>
    subst hu
    exact ⟨⟨hpod, hm, hid⟩, rfl⟩
  | named _ hu =>
    have hfold : (b.kept.filter (fun v => v.name != "")).foldl (fun m v => m.set v.name v)
        (.empty : GoMap String VM) =
        b.kept.foldl (fun m v => if v.name != "" then m.set v.name v else m) .empty := by
      rw [List.foldl_filter]
    have hu : (b.kept.foldl (fun m v => if v.name != "" then m.set v.name v else m)
      (.empty : GoMap String VM)).get pod.spec.vmName = some u := hu
    rw [← hfold] at hu
    exact absurd (List.mem_filter.mp (GoMap.mem_of_get_index VM.name _ _ _ hu).1).1 hkept
  | listed _ _ hu => exact absurd (GoMap.mem_of_get_index VM.id _ _ _ hu).1 hkept
  | guest hm hu =>
    have hu : a.macosVM = some u := hu
    have hguest := hmac hm
    rw [hu] at hguest
    exact absurd (hid.symm.trans (beq_iff_eq.mp hguest))
      (l.macos_apart v (List.mem_of_getElem? hv) pod hpod)

theorem adopts_writes {S : Type} [DecidableEq S] {snapshot : LifecycleStatus → S} (hb : BootInv l b)
    {pod : Pod} (hpod : pod ∈ l.pods) {a : Findings}
    (hmac : isMacosSpec pod.spec = true → a.macosVM.all (·.id == macosVMID pod.spec.vmName) = true)
    (h : Adopts snapshot pod (b.findings a pod) b.tables t) : b.Writes l t b.orphaned := by
  intro k v f hv hf hnone
  refine ⟨fun hclean => h.records (fun u hu hid => ?_) (fun u hu hid => ?_) hclean, rfl⟩
  · exact ⟨pod, (takes_apart hb hpod hmac hv hf hnone hu hid).1, rfl⟩
  · exact ⟨pod, takes_apart hb hpod hmac hv hf hnone hu hid⟩

theorem writes_self : b.Writes l b.tables b.orphaned := fun _ _ _ _ _ _ => ⟨id, rfl⟩

/- The sweep gives a kept record to the policy. -/
theorem sweep_writes (hb : BootInv l b) (policy : OrphanPolicy) {v : VM} {i : ℕ}
    (hi : b.fate[i]? = some (.kept v)) :
    b.Writes l (handleOrphan policy (b.tables, []) v).1 (b.orphaned ++ [v]) := by
  intro k u f hu hf hnone
  have hne : u.id ≠ v.id := by
    obtain ⟨w, hw, hid⟩ := hb.kept_id hi
    rw [hid]
    refine Listing.id_ne hw hu fun hki => ?_
    subst hki
    rw [hf] at hi
    cases hi
    cases hnone
  refine ⟨fun hc => clean_handleOrphan policy hc hne, ?_⟩
  have hcount := policyCalls_handleOrphan policy b v u.id
  rw [if_neg (Ne.symm hne)] at hcount
  exact hcount

theorem mainStep_spec {S : Type} [DecidableEq S] {snapshot : LifecycleStatus → S} {policy : OrphanPolicy}
    (hb : BootInv l b) {pc pc' : MainPC} (hpc : pc.Inv l b) {a : BootAnswer} {b' : Boot}
    (h : mainStep snapshot policy l b pc a = some (b', pc')) :
    ∃ t orphaned, b' = b.write t orphaned ∧ b.Writes l t orphaned ∧ pc'.Inv l b' := by
  unfold mainStep at h
  split at h
  next =>
    split at h
    next hnil =>
      cases h
      exact ⟨_, _, rfl, writes_self, hnil, hpc, fun _ hp => hp⟩
    next => cases h
  next pod todo matched a =>
    obtain ⟨hnil, hkept, hsub⟩ := hpc
    have hsub' : ∀ p ∈ todo, p ∈ l.pods := fun p hp => hsub p (List.mem_cons_of_mem _ hp)
    split at h
    next =>
      cases h
      exact ⟨_, _, rfl, writes_self, hnil, hkept, hsub'⟩
    next hmac =>
      cases h
      refine ⟨_, _, rfl, ?_, hnil, hkept, hsub'⟩
      exact adopts_writes hb (hsub pod List.mem_cons_self) (fun hm => absurd hm hmac)
        (reconcilePod_adopts b.tables pod _)
  next matched =>
    cases h
    obtain ⟨hnil, hkept, -⟩ := hpc
    exact ⟨_, _, rfl, writes_self, hnil, hkept, fun p hp => List.mem_filter.mp hp⟩
  next pod todo matched a =>
    obtain ⟨hnil, hkept, hsub⟩ := hpc
    obtain ⟨hpod, hmac⟩ := hsub pod List.mem_cons_self
    split at h
    next hguest =>
      cases h
      refine ⟨_, _, rfl, ?_, hnil, hkept, fun p hp => hsub p (List.mem_cons_of_mem _ hp)⟩
      exact adopts_writes hb hpod (fun _ => hguest) (reconcileMacosPod_adopts b.tables hmac _)
    next => cases h
  next matched =>
    cases h
    obtain ⟨hnil, hkept, -⟩ := hpc
    refine ⟨_, _, rfl, writes_self, hnil, ?_, fun v hv => ?_⟩
    · exact (List.filter_sublist.map VM.id).nodup hb.kept_ids_nodup
    · obtain ⟨i, hi⟩ := hb.mem_kept.mp (List.mem_filter.mp hv).1
      exact ⟨⟨i, hi⟩, hkept i v hi⟩
  next v todo =>
    cases h
    obtain ⟨hnil, hnodup, hall⟩ := hpc
    rw [List.map_cons, List.nodup_cons] at hnodup
    obtain ⟨⟨i, hi⟩, -⟩ := hall v List.mem_cons_self
    refine ⟨_, _, rfl, sweep_writes hb policy hi, hnil, hnodup.2, fun u hu => ?_⟩
    obtain ⟨hk, hcalls⟩ := hall u (List.mem_cons_of_mem _ hu)
    have hne : v.id ≠ u.id := fun he => hnodup.1 (he ▸ List.mem_map_of_mem hu)
    refine ⟨hk, ?_⟩
    rw [policyCalls_handleOrphan, if_neg hne, hcalls]
  next =>
    cases h
    obtain ⟨r, hr⟩ := dispatchOwedWork_frame b.tables
    refine ⟨_, _, rfl, fun k u f hu hf hnone => ⟨fun hc => ?_, rfl⟩, hpc.1⟩
    rw [hr]
    exact hc.of_eq rfl rfl
  next => cases h

/- The main thread counts on kept records only. -/
theorem Boot.Apart.main {b' : Boot} {i : ℕ} {v : VM} (h : Boot.Apart l i v b b')
    (hv : l.vms[i]? = some v) (hb : BootInv l b) (hold : ∀ u, b.fate[i]? ≠ some (.kept u))
    (hnew : ∀ u, b'.fate[i]? = some (.kept u) → b'.policyCalls u.id = 0) {pc : MainPC}
    (hpc : pc.Inv l b) : pc.Inv l b' := by
  cases pc with
  | fanOut => exact h.keptUncalled hv hb hnew hpc
  | pods todo matched => exact ⟨h.pending hpc.1, h.keptUncalled hv hb hnew hpc.2.1, hpc.2.2⟩
  | macos todo matched => exact ⟨h.pending hpc.1, h.keptUncalled hv hb hnew hpc.2.1, hpc.2.2⟩
  | sweep todo =>
    obtain ⟨hnil, hnodup, hall⟩ := hpc
    refine ⟨h.pending hnil, hnodup, fun u hu => ?_⟩
    obtain ⟨⟨k, hk⟩, hcalls⟩ := hall u hu
    have hki : k ≠ i := fun he => hold u (he ▸ hk)
    obtain ⟨w, hw, hid⟩ := hb.kept_id hk
    refine ⟨⟨k, (h.fate k hki).trans hk⟩, ?_⟩
    rw [h.calls _ (by rw [hid]; exact Listing.id_ne hv hw hki), hcalls]
  | done => exact h.pending hpc

end Main

end VkCocoon
