import VkCocoon.Publish

/-!
# Convergence of the lifecycle annotations

An entry whose recorded flush is its status is flushed no more, so the annotations at the
apiserver have to be that status. They are, as long as the patches arrive in the order of
the stagings they were sent for and a flush is recorded against the staging it was sent
for. Neither is enforced: a patch that was sent earlier can land on a later one.
-/

namespace VkCocoon
open Lib Tables

/-- A point of `flushLifecycle`, or a request that has not arrived. -/
def PubPC.flushing : PubPC → Bool
  | .own .. | .send .. | .wait .. | .record .. | .drop .. | .travel _ => true
  | _ => false

/-- The staging a patch was sent for. -/
def Request.staging : Request → Option ℕ
  | .lifecycle _ _ staging => some staging
  | .podStatus _ _ => none

section Converge
variable {S : Type} [DecidableEq S] (snapshot : LifecycleStatus → S) (k : Key) (u : UID)

/-- Where no later pass flushes the intent of `u`, its status is stored. -/
def Stored (p : Pub) : Prop :=
  ∀ e obj, p.tables.lifecycleIntent.get k = some e → e.uid = u → e.settled snapshot = true →
    p.api = some obj → obj.uid = u → obj.lifecycle = some e.status

/-- The same when no flush is in flight. -/
def Converged (c : Config Pub PubPC) : Prop :=
  (∀ t ∈ c.threads, t.flushing = false) → Stored snapshot k u c.shared

/-- A lifecycle patch arrives after the patches of earlier stagings, and a flush is recorded
against the staging it was sent for. -/
def PubPC.InOrder (p : Pub) : PubPC → Prop
  | .travel request => ∀ r ∈ p.sent[request]?, ∀ s ∈ r.staging, ∀ l ∈ p.landed, l ≤ s
  | .record uid status staging =>
    p.tables.lifecycleOwnedLocked snapshot k uid (snapshot status) = true →
      staging + 1 = p.history.length
  | _ => True

def InOrder (c : Config Pub PubPC) : PoolEvent PubPC PubAnswer PubAround → Prop
  | .run i _ => ∀ t ∈ c.threads[i]?, t.InOrder snapshot k c.shared
  | _ => True

instance (p : Pub) (t : PubPC) : Decidable (t.InOrder snapshot k p) := by
  unfold PubPC.InOrder
  split <;> infer_instance

instance (c : Config Pub PubPC) :
    (e : PoolEvent PubPC PubAnswer PubAround) → Decidable (InOrder snapshot k c e)
  | .run i _ => inferInstanceAs (Decidable (∀ t ∈ c.threads[i]?, t.InOrder snapshot k c.shared))
  | .start _ | .env _ => .isTrue trivial

/-! ### The invariant -/

structure PubInv (p : Pub) : Prop where
  last : ∀ e, p.tables.lifecycleIntent.get k = some e →
    p.history[p.history.length - 1]? = some (e.uid, e.status)
  landed_lt : ∀ l, p.landed = some l → l < p.history.length
  landed : ∀ l obj, p.landed = some l → p.api = some obj → obj.uid = u →
    ∃ status, p.history[l]? = some (u, status) ∧ obj.lifecycle = some status
  flushed : ∀ e obj, p.tables.lifecycleIntent.get k = some e → e.uid = u →
    e.settled snapshot = true → p.api = some obj → obj.uid = u →
    p.landed = some (p.history.length - 1)
  sent : ∀ (r : ℕ) uid status staging, p.sent[r]? = some (.lifecycle uid status staging) →
    p.history[staging]? = some (uid, status)
  answered : ∀ (r : ℕ) status staging obj, p.answers.get r = some true →
    p.sent[r]? = some (.lifecycle u status staging) → p.api = some obj → obj.uid = u →
    ∃ l, p.landed = some l ∧ staging ≤ l
  answers_lt : ∀ r b, p.answers.get r = some b → r < p.sent.length

/-- What a flush knows of the patch it sent. -/
def PubPC.Sent (p : Pub) : PubPC → Prop
  | .stage s => s.pod.key = k
  | .send uid status staging _ _ => p.history[staging]? = some (uid, status)
  | .wait uid status staging _ request =>
    p.history[staging]? = some (uid, status) ∧
    p.sent[request]? = some (.lifecycle uid status staging)
  | .record uid status staging =>
    p.history[staging]? = some (uid, status) ∧
    (uid = u → ∀ obj, p.api = some obj → obj.uid = u → ∃ l, p.landed = some l ∧ staging ≤ l)
  | _ => True

/- The two facts meet in the stored status. -/
theorem PubInv.stored {p : Pub} (h : PubInv snapshot k u p) : Stored snapshot k u p := by
  intro e obj he hu hs hapi hobj
  have hl := h.flushed e obj he hu hs hapi hobj
  obtain ⟨status, hst, hlc⟩ := h.landed _ obj hl hapi hobj
  rw [h.last e he] at hst
  cases hst
  exact hlc

variable {snapshot k u} {p p' : Pub}

/-- The history and the requests only grow, a later patch has landed if any, and the object of
`u` is not created anew. -/
structure Pub.Grows (u : UID) (p p' : Pub) : Prop where
  history : ∀ (s : ℕ) x, p.history[s]? = some x → p'.history[s]? = some x
  sent : ∀ (r : ℕ) x, p.sent[r]? = some x → p'.sent[r]? = some x
  landed : ∀ l, p.landed = some l → ∃ l', p'.landed = some l' ∧ l ≤ l'
  object : ∀ obj', p'.api = some obj' → obj'.uid = u → ∃ obj, p.api = some obj ∧ obj.uid = u

theorem PubPC.Sent.grows {t : PubPC} (h : t.Sent k u p) (hg : p.Grows u p') : t.Sent k u p' := by
  cases t with
  | send uid status staging attempt cut => exact hg.history _ _ h
  | wait uid status staging attempt request => exact ⟨hg.history _ _ h.1, hg.sent _ _ h.2⟩
  | record uid status staging =>
    refine ⟨hg.history _ _ h.1, fun hu obj' hapi hobj => ?_⟩
    obtain ⟨obj, ho, hou⟩ := hg.object obj' hapi hobj
    obtain ⟨l, hl, hle⟩ := h.2 hu obj ho hou
    obtain ⟨l', hl', hle'⟩ := hg.landed l hl
    exact ⟨l', hl', hle.trans hle'⟩
  | _ => exact h

/- A step that leaves the patches alone and at most drops intents or marks them. -/
theorem PubInv.of_tables {t : Tables} (h : PubInv snapshot k u p)
    (hi : ∀ e', t.lifecycleIntent.get k = some e' →
      ∃ e, p.tables.lifecycleIntent.get k = some e ∧ e'.uid = e.uid ∧ e'.status = e.status ∧
        (e'.settled snapshot = true → e.settled snapshot = true ∨
          (e.uid = u → ∀ obj, p.api = some obj → obj.uid = u →
            p.landed = some (p.history.length - 1)))) :
    PubInv snapshot k u { p with tables := t } := by
  refine ⟨fun e' he' => ?_, h.landed_lt, h.landed, fun e' obj he' hu hs hapi hobj => ?_, h.sent,
    h.answered, h.answers_lt⟩
  · obtain ⟨e, he, huid, hst, -⟩ := hi e' he'
    rw [huid, hst]
    exact h.last e he
  · obtain ⟨e, he, huid, hst, hset⟩ := hi e' he'
    rcases hset hs with hold | hnew
    · exact h.flushed e obj he (huid ▸ hu) hold hapi hobj
    · exact hnew (huid ▸ hu) obj hapi hobj

theorem Pub.Grows.refl (u : UID) (p : Pub) : p.Grows u p :=
  ⟨fun _ _ h => h, fun _ _ h => h, fun l h => ⟨l, h, le_rfl⟩, fun obj h hu => ⟨obj, h, hu⟩⟩

/- A staging makes a new entry, which no flush has been recorded for. -/
theorem PubInv.stage {t : Tables} {uid : UID} {status : LifecycleStatus} {moves : ℕ}
    (h : PubInv snapshot k u p) (ht : t.lifecycleIntent.get k = some ⟨uid, status, none⟩) :
    PubInv snapshot k u
      { p with tables := t, history := p.history ++ [(uid, status)], readyMoves := moves } := by
  refine ⟨fun e he => ?_, fun l hl => ?_, fun l obj hl hapi hobj => ?_, fun e obj he _ hs => ?_,
    fun r uid status staging hr => getElem?_snoc (h.sent r uid status staging hr), h.answered,
    h.answers_lt⟩
  · have he := he
    rw [ht] at he
    cases he
    simp
  · have hlt := h.landed_lt l hl
    simp only [List.length_append, List.length_singleton]
    omega
  · obtain ⟨st, hst, hlc⟩ := h.landed l obj hl hapi hobj
    exact ⟨st, getElem?_snoc hst, hlc⟩
  · rw [ht] at he
    cases he
    cases hs

theorem own_history {uid : UID} {status : LifecycleStatus} (hinj : Function.Injective snapshot)
    (h : PubInv snapshot k u p)
    (ho : p.tables.lifecycleOwnedLocked snapshot k uid (snapshot status) = true) :
    ∃ e, p.tables.lifecycleIntent.get k = some e ∧ e.uid = uid ∧ e.status = status ∧
      p.history[p.history.length - 1]? = some (uid, status) := by
  unfold lifecycleOwnedLocked at ho
  cases he : p.tables.lifecycleIntent.get k with
  | none =>
    rw [he] at ho
    cases ho
  | some e =>
    rw [he] at ho
    simp only [Option.any_some, Bool.and_eq_true, beq_iff_eq] at ho
    have hst := hinj ho.2
    refine ⟨e, rfl, ho.1, hst, ?_⟩
    rw [h.last e he, ho.1, hst]

theorem PubInv.send {r : Request} (h : PubInv snapshot k u p)
    (hr : ∀ uid status staging, r = .lifecycle uid status staging →
      p.history[staging]? = some (uid, status)) :
    PubInv snapshot k u { p with sent := p.sent ++ [r] } := by
  refine ⟨h.last, h.landed_lt, h.landed, h.flushed, fun i uid status staging hi => ?_,
    fun i status staging obj ha hi hapi hobj => ?_, fun i b hb => ?_⟩
  · rcases Program.getElem?_snoc_cases hi with hold | ⟨-, hnew⟩
    · exact h.sent i uid status staging hold
    · exact hr uid status staging hnew.symm
  · rcases Program.getElem?_snoc_cases hi with hold | ⟨hlast, -⟩
    · exact h.answered i status staging obj ha hold hapi hobj
    · have hlt := h.answers_lt i true ha
      omega
  · have hlt := h.answers_lt i b hb
    simp only [List.length_append, List.length_singleton]
    omega

/- An answer that is not the acceptance of a lifecycle patch. -/
theorem PubInv.answer {i : ℕ} {b : Bool} {n : ℕ} {r : Request} (h : PubInv snapshot k u p)
    (hi : p.sent[i]? = some r) (hb : b = true → r.staging = none) :
    PubInv snapshot k u { p with answers := p.answers.set i b, statusSeen := n } := by
  refine ⟨h.last, h.landed_lt, h.landed, h.flushed, h.sent,
    fun j status staging obj ha hj hapi hobj => ?_, fun j c hc => ?_⟩
  · by_cases hij : j = i
    · subst hij
      have hbt : b = true := by
        have := (GoMap.get_set_self p.answers j b).symm.trans ha
        exact Option.some.inj this
      rw [hi] at hj
      cases hj
      cases hb hbt
    · have ha' : p.answers.get j = some true := (GoMap.get_set_ne _ _ hij).symm.trans ha
      exact h.answered j status staging obj ha' hj hapi hobj
  · by_cases hij : j = i
    · subst hij
      exact (List.getElem?_eq_some_iff.mp hi).1
    · exact h.answers_lt j c ((GoMap.get_set_ne _ _ hij).symm.trans hc)

/- The acceptance of a lifecycle patch, after those of earlier stagings. -/
theorem PubInv.land {i staging : ℕ} {uid : UID} {status : LifecycleStatus} {obj : ApiPod}
    (h : PubInv snapshot k u p) (hi : p.sent[i]? = some (.lifecycle uid status staging))
    (hapi : p.api = some obj) (hobj : obj.uid = uid)
    (horder : ∀ l, p.landed = some l → l ≤ staging) :
    PubInv snapshot k u
      { p with
        api := some { obj with lifecycle := some status }
        landed := some staging
        answers := p.answers.set i true } := by
  have hh := h.sent i uid status staging hi
  have hlt : staging < p.history.length := (List.getElem?_eq_some_iff.mp hh).1
  refine ⟨h.last, fun l hl => ?_, fun l obj' hl hapi' hu => ?_, fun e obj' he hu hs hapi' hou => ?_,
    h.sent, fun j st sg obj' ha hj hapi' hou => ?_, fun j b hb => ?_⟩
  · cases hl
    exact hlt
  · cases hl
    cases hapi'
    have hu : uid = u := hobj.symm.trans hu
    rw [hu] at hh
    exact ⟨status, hh, rfl⟩
  · -- a settled entry: the last staging has landed, so this patch is of the last staging too
    cases hapi'
    have hlast := h.flushed e obj he hu hs hapi hou
    have hle := horder _ hlast
    have heq : staging = p.history.length - 1 := by omega
    exact congrArg some heq
  · cases hapi'
    refine ⟨staging, rfl, ?_⟩
    by_cases hij : j = i
    · subst hij
      rw [hi] at hj
      cases hj
      exact le_rfl
    · have ha' : p.answers.get j = some true := (GoMap.get_set_ne _ _ hij).symm.trans ha
      obtain ⟨l, hl, hle⟩ := h.answered j st sg obj ha' hj hapi hou
      exact hle.trans (horder l hl)
  · by_cases hij : j = i
    · subst hij
      exact (List.getElem?_eq_some_iff.mp hi).1
    · exact h.answers_lt j b ((GoMap.get_set_ne _ _ hij).symm.trans hb)

/- Recording a flush against the staging it was sent for. -/
theorem PubInv.record {uid : UID} {status : LifecycleStatus} {staging : ℕ}
    (hinj : Function.Injective snapshot) (h : PubInv snapshot k u p)
    (ht : (PubPC.record uid status staging).Sent k u p)
    (hord : (PubPC.record uid status staging).InOrder snapshot k p) :
    PubInv snapshot k u
      { p with tables := p.tables.recordLifecycleFlushed snapshot k uid status } := by
  refine h.of_tables fun e' he' => ?_
  unfold recordLifecycleFlushed at he'
  cases he : p.tables.lifecycleIntent.get k with
  | none =>
    rw [he] at he'
    rw [he] at he'
    cases he'
  | some e =>
    rw [he] at he'
    dsimp only at he'
    split at he'
    next hown =>
      have he' := (GoMap.get_set_self _ _ _).symm.trans he'
      cases he'
      refine ⟨e, rfl, rfl, rfl, fun _ => Or.inr fun hu obj hapi hobj => ?_⟩
      obtain ⟨e₁, he₁, huid, -, -⟩ := own_history hinj h hown
      rw [he] at he₁
      cases he₁
      obtain ⟨l, hl, hle⟩ := ht.2 (huid.symm.trans hu) obj hapi hobj
      have hlt := h.landed_lt l hl
      have hstage := hord hown
      have heq : l = p.history.length - 1 := by omega
      rw [hl, heq]
    next =>
      rw [he] at he'
      have heq : e' = e := (Option.some.inj he').symm
      rw [heq]
      exact ⟨e, rfl, rfl, rfl, fun hs => Or.inl hs⟩

/-! ### Steps -/

variable {t t' : PubPC} {a : PubAnswer} {new : List PubPC}

theorem Pub.Grows.answer (u : UID) (p : Pub) (answers : GoMap ℕ Bool) (n : ℕ) :
    p.Grows u { p with answers := answers, statusSeen := n } :=
  ⟨fun _ _ h => h, fun _ _ h => h, fun l h => ⟨l, h, le_rfl⟩, fun obj h hu => ⟨obj, h, hu⟩⟩

theorem Pub.Grows.tables (u : UID) (p : Pub) (t : Tables) : p.Grows u { p with tables := t } :=
  ⟨fun _ _ h => h, fun _ _ h => h, fun l h => ⟨l, h, le_rfl⟩, fun obj h hu => ⟨obj, h, hu⟩⟩

theorem Pub.Grows.send (u : UID) (p : Pub) (r : Request) :
    p.Grows u { p with sent := p.sent ++ [r] } :=
  ⟨fun _ _ h => h, fun _ _ h => getElem?_snoc h, fun l h => ⟨l, h, le_rfl⟩,
    fun obj h hu => ⟨obj, h, hu⟩⟩

theorem Pub.Grows.stamped (u : UID) (p : Pub) (stamps : GoMap ℕ ℕ) :
    p.Grows u { p with stamps := stamps } :=
  ⟨fun _ _ h => h, fun _ _ h => h, fun l h => ⟨l, h, le_rfl⟩, fun obj h hu => ⟨obj, h, hu⟩⟩

theorem PubInv.stamped (h : PubInv snapshot k u p) (stamps : GoMap ℕ ℕ) :
    PubInv snapshot k u { p with stamps := stamps } :=
  ⟨h.last, h.landed_lt, h.landed, h.flushed, h.sent, h.answered, h.answers_lt⟩

theorem travel_inv {request : ℕ} {r : Request} (hp : PubInv snapshot k u p)
    (hr : p.sent[request]? = some r) (hord : (PubPC.travel request).InOrder snapshot k p) :
    PubInv snapshot k u
      { (p.arrive u r).1 with answers := (p.arrive u r).1.answers.set request (p.arrive u r).2 } ∧
    p.Grows u
      { (p.arrive u r).1 with answers := (p.arrive u r).1.answers.set request (p.arrive u r).2 } := by
  rcases Pub.arrive_cases u p r with heq | ⟨uid, stamp, obj, rfl, -, -, heq⟩ |
    ⟨uid, status, staging, obj, rfl, hapi, hobj, heq⟩ <;> rw [heq]
  · exact ⟨hp.answer hr (fun h => by cases h), .answer u p _ _⟩
  · exact ⟨hp.answer hr fun _ => rfl, .answer u p _ _⟩
  · have horder : ∀ l, p.landed = some l → l ≤ staging := fun l hl => hord _ hr staging rfl l hl
    refine ⟨hp.land hr hapi hobj horder, fun _ _ h => h, fun _ _ h => h, fun l hl => ?_, ?_⟩
    · exact ⟨staging, rfl, horder l hl⟩
    · intro obj' ho hu
      cases ho
      exact ⟨obj, hapi, hu⟩

/- One step of a thread. -/
theorem step_pubInv (hinj : Function.Injective snapshot) (hp : PubInv snapshot k u p)
    (ht : t.Sent k u p) (hord : t.InOrder snapshot k p)
    (h : t.step snapshot k u p a = some (p', t', new)) :
    PubInv snapshot k u p' ∧ p.Grows u p' ∧ t'.Sent k u p' ∧ ∀ x ∈ new, x.Sent k u p' := by
  have hnone : ∀ x ∈ ([] : List PubPC), x.Sent k u p := fun x hx => by cases hx
  have hstay : ∀ x : PubPC, x.Sent k u p → PubInv snapshot k u p ∧ p.Grows u p ∧ x.Sent k u p ∧
      ∀ y ∈ ([] : List PubPC), y.Sent k u p := fun x hx => ⟨hp, .refl u p, hx, hnone⟩
  have hretry : ∀ uid status attempt cut,
      (PubPC.retryFlush uid status attempt cut).Sent k u p := by
    intro uid status attempt cut
    unfold PubPC.retryFlush
    split <;> trivial
  have hrefreshed : ∀ q uid obj publish, (PubPC.refreshed uid obj publish).Sent k u q := by
    intro q uid obj publish
    cases publish <;> trivial
  have hretryStatus : ∀ uid status stamp attempt cut,
      (PubPC.retryStatus uid status stamp attempt cut).Sent k u p := by
    intro uid status stamp attempt cut
    unfold PubPC.retryStatus
    split
    · split <;> trivial
    · trivial
  cases t with
  | stage s =>
    rcases s.stage_cases p.tables with heq | ⟨state, message, -, hacc, heq⟩
    · simp only [PubPC.step, heq] at h
      cases h
      exact hstay _ (by cases s <;> trivial)
    · simp only [PubPC.step, heq] at h
      cases h
      have hkey : s.pod.key = k := ht
      have hent := accepted_intent hacc
      rw [hkey] at hent
      refine ⟨hp.stage hent, ⟨fun _ _ hx => getElem?_snoc hx, fun _ _ hx => hx,
        fun l hl => ⟨l, hl, le_rfl⟩, fun obj ho hu => ⟨obj, ho, hu⟩⟩, ?_, fun x hx => by cases hx⟩
      cases s.publishes <;> trivial
  | capture =>
    simp only [PubPC.step] at h
    split at h <;> cases h
    · exact hstay _ trivial
    · refine hstay _ ?_
      split
      · trivial
      · split <;> trivial
  | getPod uid status =>
    simp only [PubPC.step] at h
    split at h <;> cases h <;> exact hstay _ trivial
  | refresh uid obj publish =>
    cases h
    refine hstay _ ?_
    split
    · trivial
    · exact hrefreshed ..
  | store uid obj publish stamp =>
    cases obj <;> cases h
    · exact ⟨hp.stamped _, .stamped u p _, hrefreshed .., fun x hx => by cases hx⟩
    · exact hstay _ (hrefreshed ..)
  | marshal uid obj status =>
    cases h
    exact hstay _ trivial
  | statusSend uid status stamp attempt =>
    simp only [PubPC.step] at h
    split at h <;> cases h
    · exact hstay _ (hretryStatus ..)
    · refine ⟨hp.send (fun _ _ _ h => by cases h), .send u p _, trivial, fun x hx => ?_⟩
      rw [List.mem_singleton.mp hx]
      trivial
  | statusWait uid status stamp attempt request =>
    simp only [PubPC.step] at h
    split at h
    · cases h
      exact hstay _ (hretryStatus ..)
    · obtain ⟨accepted, -, heq⟩ := Option.map_eq_some_iff.mp h
      cases heq
      refine hstay _ ?_
      split <;> trivial
  | own uid status attempt cut =>
    cases h
    refine hstay _ ?_
    split
    next hown =>
      obtain ⟨e, -, -, -, hlast⟩ := own_history hinj hp hown
      exact hlast
    next => trivial
  | send uid status staging attempt cut =>
    have hhist : p.history[staging]? = some (uid, status) := ht
    simp only [PubPC.step] at h
    split at h <;> cases h
    · exact hstay _ (hretry ..)
    · refine ⟨hp.send ?_, .send u p _, ⟨hhist, by simp⟩, fun x hx => ?_⟩
      · rintro uid' status' staging' heq
        cases heq
        exact hhist
      · rw [List.mem_singleton.mp hx]
        trivial
  | wait uid status staging attempt request =>
    simp only [PubPC.step] at h
    split at h
    · cases h
      exact hstay _ (hretry ..)
    · obtain ⟨accepted, hans, heq⟩ := Option.map_eq_some_iff.mp h
      cases heq
      refine hstay _ ?_
      cases accepted with
      | false => trivial
      | true =>
        refine ⟨ht.1, fun hu obj hapi hobj => ?_⟩
        subst hu
        exact hp.answered request status staging obj hans ht.2 hapi hobj
  | record uid status staging =>
    cases h
    exact ⟨hp.record hinj ht hord, .tables u p _, trivial, fun x hx => by cases hx⟩
  | drop uid status =>
    cases h
    refine ⟨hp.of_tables fun e' he' => ?_, .tables u p _, trivial, fun x hx => by cases hx⟩
    unfold dropSupersededLifecycle at he'
    split at he'
    · have hnone := (GoMap.get_del_self p.tables.lifecycleIntent k).symm.trans he'
      cases hnone
    · exact ⟨e', he', rfl, rfl, Or.inl⟩
  | travel request =>
    obtain ⟨r, hr, heq⟩ := Option.map_eq_some_iff.mp h
    cases heq
    obtain ⟨hinv, hgrow⟩ := travel_inv hp hr hord
    exact ⟨hinv, hgrow, trivial, fun x hx => by cases hx⟩
  | done => cases h

/-! ### Runs -/

variable (snapshot k) in
theorem around_intent {op : TableOp} (hop : (op.isLifecycleWrite || op.isFlush) = false)
    (t : Tables) :
    (op.run snapshot t).lifecycleIntent.get k = t.lifecycleIntent.get k ∨
    (op.run snapshot t).lifecycleIntent.get k = none := by
  obtain ⟨hw, hf⟩ := Bool.or_eq_false_iff.mp hop
  have hno : op.lifecycleWrite t = none := by
    cases op <;> first | rfl | cases hw
  rcases run_intent_of_no_write snapshot hno k with h | h | ⟨e, sent, -, rfl, -, -⟩
  · exact Or.inl h
  · exact Or.inr h
  · cases hf

/- Once the object of `u` is gone there is nothing to say. -/
theorem PubInv.lose {api : Option ApiPod} (h : PubInv snapshot k u p)
    (hno : ∀ obj, api = some obj → obj.uid ≠ u) :
    PubInv snapshot k u { p with api := api } ∧ p.Grows u { p with api := api } := by
  refine ⟨⟨h.last, h.landed_lt, ?_, ?_, h.sent, ?_, h.answers_lt⟩, fun _ _ h => h, fun _ _ h => h,
    fun l h => ⟨l, h, le_rfl⟩, fun obj ho hu => absurd hu (hno obj ho)⟩
  · exact fun l obj _ ho hu => absurd hu (hno obj ho)
  · exact fun e obj _ _ _ ho hu => absurd hu (hno obj ho)
  · exact fun r status staging obj _ _ ho hu => absurd hu (hno obj ho)

theorem around_pubInv {o : PubAround} (hp : PubInv snapshot k u p)
    (h : p.around snapshot u o = some p') : PubInv snapshot k u p' ∧ p.Grows u p' := by
  cases o with
  | table op =>
    simp only [Pub.around] at h
    split at h
    next => cases h
    next hop =>
      cases h
      refine ⟨hp.of_tables fun e' he' => ?_, .tables u p _⟩
      rcases around_intent snapshot k (by simpa using hop) p.tables with h | h
      · rw [h] at he'
        exact ⟨e', he', rfl, rfl, Or.inl⟩
      · rw [h] at he'
        cases he'
  | apiDelete =>
    cases h
    exact hp.lose fun obj ho => by cases ho
  | apiCreate uid =>
    simp only [Pub.around] at h
    split at h
    next => cases h
    next hne =>
      cases h
      refine hp.lose fun obj ho hu => hne ?_
      cases ho
      simp [show uid = u from hu]

theorem next_pubInv (hinj : Function.Injective snapshot) (c : Config Pub PubPC)
    (e : PoolEvent PubPC PubAnswer PubAround) (c' : Config Pub PubPC)
    (hc : Program.Stable (PubInv snapshot k u) (fun p _ t => t.Sent k u p) c)
    (hg : InOrder snapshot k c e) (h : (publishers snapshot k u).next c e = some c') :
    Program.Stable (PubInv snapshot k u) (fun p _ t => t.Sent k u p) c' := by
  refine Program.next_stable (publishers snapshot k u) (G := InOrder snapshot k) ?_ ?_ ?_
    c e c' hc hg h
  · intro c t _ _ he
    cases t with
    | stage s =>
      show s.pod.key = k
      cases s <;> simp_all [publishers, PubPC.entry, Stager.pod]
    | capture | refresh => trivial
    | _ => cases he
  · intro c i t a p' t' new hc hg ht hs
    obtain ⟨hp, hgrow, hown, hnew⟩ := step_pubInv hinj hc.1 (hc.2 i t ht) (hg t ht) hs
    exact ⟨hp, hown, fun j x _ hx => (hc.2 j x hx).grows hgrow, fun j x _ hx => hnew x hx⟩
  · intro c o p' hc _ ho
    obtain ⟨hp, hgrow⟩ := around_pubInv hc.1 ho
    exact ⟨hp, fun j x hx => (hc.2 j x hx).grows hgrow⟩

theorem start_pubInv (t : Tables) (api : Option ApiPod)
    (hs : Stored snapshot k u (Pub.start snapshot k u t api)) :
    PubInv snapshot k u (Pub.start snapshot k u t api) := by
  have hsent : ∀ (r : ℕ) x, (Pub.start snapshot k u t api).sent[r]? = some x → False :=
    fun r x hx => by cases hx
  have hans : ∀ r b, (Pub.start snapshot k u t api).answers.get r = some b → False :=
    fun r b hb => by cases (GoMap.get_empty r).symm.trans hb
  have hlanded : ∀ l, (Pub.start snapshot k u t api).landed = some l →
      l = 0 ∧ ∃ e, t.lifecycleIntent.get k = some e ∧ e.uid = u ∧ e.settled snapshot = true := by
    intro l hl
    simp only [Pub.start] at hl
    split at hl
    next hc =>
      cases he : t.lifecycleIntent.get k with
      | none =>
        rw [he] at hc
        cases hc
      | some e =>
        rw [he, Option.any_some, Bool.and_eq_true, beq_iff_eq] at hc
        exact ⟨(Option.some.inj hl).symm, e, rfl, hc⟩
    next => cases hl
  have hhist : ∀ e, t.lifecycleIntent.get k = some e →
      (Pub.start snapshot k u t api).history = [(e.uid, e.status)] := by
    intro e he
    simp only [Pub.start, he]
    rfl
  refine ⟨fun e he => ?_, fun l hl => ?_, fun l obj hl hapi hobj => ?_,
    fun e obj he hu hset _ _ => ?_, fun r _ _ _ h => (hsent r _ h).elim,
    fun r _ _ _ h => (hans r _ h).elim, fun r b h => (hans r b h).elim⟩
  · rw [hhist e he]
    rfl
  · obtain ⟨rfl, e, he, -⟩ := hlanded l hl
    rw [hhist e he]
    exact Nat.zero_lt_one
  · obtain ⟨rfl, e, he, hu, hset⟩ := hlanded l hl
    refine ⟨e.status, ?_, hs e obj he hu hset hapi hobj⟩
    rw [hhist e he, hu]
    rfl
  · rw [hhist e he]
    have he : t.lifecycleIntent.get k = some e := he
    simp only [Pub.start, he, Option.any_some, hu, hset, beq_self_eq_true, Bool.and_self, if_true]
    rfl

/-- When the patches arrive in the order of their stagings and each flush is recorded against
the staging it was sent for, an intent that no pass flushes again is stored as it stands. -/
theorem lifecycle_converges (hinj : Function.Injective snapshot) (t : Tables)
    (api : Option ApiPod) (hstored : Stored snapshot k u (Pub.start snapshot k u t api))
    (es : List (PoolEvent PubPC PubAnswer PubAround)) (c : Config Pub PubPC)
    (hg : (publishers snapshot k u).machine.Guarded (InOrder snapshot k)
      ⟨Pub.start snapshot k u t api, []⟩ es)
    (h : (publishers snapshot k u).machine.exec ⟨Pub.start snapshot k u t api, []⟩ es = some c) :
    Converged snapshot k u c := by
  have hinit : Program.Stable (PubInv snapshot k u) (fun p _ (t : PubPC) => t.Sent k u p)
      ⟨Pub.start snapshot k u t api, []⟩ := ⟨start_pubInv t api hstored, fun i t ht => by cases ht⟩
  have hc := Program.exec_stable (publishers snapshot k u) (next_pubInv hinj) hinit hg h
  exact fun _ => hc.1.stored

end Converge
/- Two transitions of the sample pod, each flushed and recorded before the next. -/
def inOrderTrace : List (PoolEvent PubPC PubAnswer PubAround) :=
  [.start (.stage (.mark samplePod .creating "")), .run 0 calm, .run 0 calm, .run 0 calm,
   .run 1 calm, .run 0 calm, .run 0 calm,
   .start (.stage (.mark samplePod .hibernating "")), .run 2 calm, .run 2 calm, .run 2 calm,
   .run 3 calm, .run 2 calm, .run 2 calm]

/- The first patch is overtaken by the second. -/
def overtakenTrace : List (PoolEvent PubPC PubAnswer PubAround) :=
  [.start (.stage (.mark samplePod .creating "")), .run 0 calm, .run 0 calm, .run 0 calm,
   .start (.stage (.mark samplePod .hibernating "")), .run 2 calm, .run 2 calm, .run 2 calm,
   .run 3 calm, .run 2 calm, .run 2 calm, .run 1 calm, .run 0 calm, .run 0 calm]

theorem lifecycle_converges_in_order :
    ∃ c, (publishers (id : LifecycleStatus → LifecycleStatus) "ns/a" "u").machine.exec
        ⟨Pub.start id "ns/a" "u" sampleTracked (some ⟨"u", none⟩), []⟩ inOrderTrace = some c ∧
      (∀ t ∈ c.threads, t.flushing = false) ∧
      c.shared.api = some ⟨"u", some ⟨.hibernating, 3, ""⟩⟩ ∧ Converged id "ns/a" "u" c := by
  have hrun : ((publishers (id : LifecycleStatus → LifecycleStatus) "ns/a" "u").machine.exec
      ⟨Pub.start id "ns/a" "u" sampleTracked (some ⟨"u", none⟩), []⟩ inOrderTrace).map
      (fun c => (c.threads, c.shared.api)) =
      some ([.done, .done, .done, .done], some ⟨"u", some ⟨.hibernating, 3, ""⟩⟩) := by decide
  obtain ⟨c, hc, hv⟩ := Option.map_eq_some_iff.mp hrun
  obtain ⟨hthreads, hapi⟩ := Prod.mk.inj hv
  refine ⟨c, hc, by rw [hthreads]; decide, hapi, ?_⟩
  refine lifecycle_converges Function.injective_id sampleTracked (some ⟨"u", none⟩) ?_
    inOrderTrace c (by decide) hc
  exact fun e obj he => by cases he

theorem lifecycle_overtaken_patch :
    ¬ ∀ (t : Tables) (api : Option ApiPod) (es : List (PoolEvent PubPC PubAnswer PubAround))
      (c : Config Pub PubPC),
      Stored (id : LifecycleStatus → LifecycleStatus) "ns/a" "u" (Pub.start id "ns/a" "u" t api) →
      (publishers (id : LifecycleStatus → LifecycleStatus) "ns/a" "u").machine.exec
        ⟨Pub.start id "ns/a" "u" t api, []⟩ es = some c →
      Converged (id : LifecycleStatus → LifecycleStatus) "ns/a" "u" c := by
  intro hall
  have hrun : ((publishers (id : LifecycleStatus → LifecycleStatus) "ns/a" "u").machine.exec
      ⟨Pub.start id "ns/a" "u" sampleTracked (some ⟨"u", none⟩), []⟩ overtakenTrace).map
      (fun c => (c.threads, c.shared.api, c.shared.tables.lifecycleIntent.get "ns/a")) =
      some ([.done, .done, .done, .done], some ⟨"u", some ⟨.creating, 3, ""⟩⟩,
        some ⟨"u", ⟨.hibernating, 3, ""⟩, some ⟨.hibernating, 3, ""⟩⟩) := by decide
  obtain ⟨c, hc, hv⟩ := Option.map_eq_some_iff.mp hrun
  obtain ⟨hthreads, hrest⟩ := Prod.mk.inj hv
  obtain ⟨hapi, hintent⟩ := Prod.mk.inj hrest
  have hconv := hall sampleTracked (some ⟨"u", none⟩) overtakenTrace c
    (fun e obj he => by cases he) hc
  have hstored := hconv (by rw [hthreads]; decide) _ _ hintent rfl (by decide) hapi rfl
  exact absurd hstored (by decide)

end VkCocoon
