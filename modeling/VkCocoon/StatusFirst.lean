import VkCocoon.Publish

/-!
# Status before ready

`publishReadyLifecycle` patches the pod status before it flushes ready. Other paths flush
whatever the intent says: `republishLifecycleOnGenerationBump` flushes a ready intent whose
status patch has failed. And the status is read from the pod object, where another call may
have stored an older one. The history of `Publish` counts the moves of the intent to ready
and remembers the last one after which an accepted status was computed.
-/

namespace VkCocoon
open Lib Tables

section StatusFirst
variable {S : Type} [DecidableEq S] (snapshot : LifecycleStatus → S) (k : Key) (u : UID)

/-- An annotation patch of `u` that sets ready. -/
def Request.setsReady : Request → Bool
  | .lifecycle uid status _ => uid == u && status.state == .ready
  | .podStatus _ _ => false

/-- The status of `u` is computed but not accepted yet, or its ready is being flushed. -/
def PubPC.publishing (p : Pub) : PubPC → Bool
  | .store uid _ publish _ => uid == u && publish.isSome
  | .marshal uid .. | .statusSend uid .. | .statusWait uid .. => uid == u
  | .own uid status _ cut | .send uid status _ _ cut => uid == u && status.state == .ready && !cut
  | .wait uid status .. => uid == u && status.state == .ready
  | .travel request => (p.sent[request]?).any (·.setsReady u)
  | _ => false

def Pub.tracks (p : Pub) : Bool := p.tables.trackedPodMatches k u

/-- A thread whose next step is the acceptance of ready for `u`. -/
def PubPC.landsReady (p : Pub) : PubPC → Bool
  | .travel request => (p.sent[request]?).any (·.setsReady u) && p.api.any (·.uid == u)
  | _ => false

/-- When ready is accepted for the tracked `u`, a status computed after the last move to ready
has been accepted. -/
def StatusFirst (c : Config Pub PubPC) : PoolEvent PubPC PubAnswer PubAround → Prop
  | .run i _ => ∀ t ∈ c.threads[i]?, t.landsReady u c.shared = true → c.shared.tracks k u = true →
      c.shared.readyMoves ≤ c.shared.statusSeen
  | _ => True

/-- A stager moves the intent of `u` to ready only when no earlier publication of ready is on its
way, and re-stages a ready intent only when its status has been accepted. -/
def Stager.Careful (c : Config Pub PubPC) (s : Stager) : Prop :=
  (c.shared.tables.intentReady k u = false → (s.stage c.shared.tables).1.intentReady k u = true →
    ∀ x ∈ c.threads, x.publishing u c.shared = false) ∧
  (s = .republish s.pod → (s.stage c.shared.tables).2.isSome = true →
    c.shared.tables.intentReady k u = true → c.shared.readyMoves ≤ c.shared.statusSeen)

/-- A publication for `u` that reads its status from this object next. -/
def PubPC.marshals (ref : ℕ) : PubPC → Bool
  | .marshal uid (.shared r) _ => uid == u && r == ref
  | _ => false

/-- A status computed before the last move to ready is not stored in an object that a publication
for `u` is about to read its own from. -/
def PubPC.Careful (c : Config Pub PubPC) : PubPC → Prop
  | .stage s => s.Careful k u c
  | .store _ (.shared ref) _ stamp =>
    c.threads.any (·.marshals u ref) = true → c.shared.readyMoves ≤ stamp
  | _ => True

/-- The steps are careful, and `u` is not tracked anew while a publication of ready is on its way. -/
def Careful (c : Config Pub PubPC) : PoolEvent PubPC PubAnswer PubAround → Prop
  | .run i _ => ∀ t ∈ c.threads[i]?, t.Careful k u c
  | .env (.table op) =>
    c.shared.tracks k u = false → (op.run snapshot c.shared.tables).trackedPodMatches k u = true →
      ∀ x ∈ c.threads, x.publishing u c.shared = false
  | _ => True

instance (c : Config Pub PubPC) :
    (e : PoolEvent PubPC PubAnswer PubAround) → Decidable (StatusFirst k u c e)
  | .run i _ => inferInstanceAs (Decidable (∀ t ∈ c.threads[i]?, t.landsReady u c.shared = true →
      c.shared.tracks k u = true → c.shared.readyMoves ≤ c.shared.statusSeen))
  | .start _ | .env _ => .isTrue trivial

instance (c : Config Pub PubPC) (s : Stager) : Decidable (s.Careful k u c) := by
  unfold Stager.Careful
  infer_instance

instance (c : Config Pub PubPC) (t : PubPC) : Decidable (t.Careful k u c) := by
  unfold PubPC.Careful
  split <;> infer_instance

instance (c : Config Pub PubPC) :
    (e : PoolEvent PubPC PubAnswer PubAround) → Decidable (Careful snapshot k u c e)
  | .run i _ => inferInstanceAs (Decidable (∀ t ∈ c.threads[i]?, t.Careful k u c))
  | .env (.table op) => inferInstanceAs (Decidable
      (c.shared.tracks k u = false →
        (op.run snapshot c.shared.tables).trackedPodMatches k u = true →
        ∀ x ∈ c.threads, x.publishing u c.shared = false))
  | .start _ | .env .apiDelete | .env (.apiCreate _) => .isTrue trivial

/-! ### The invariant -/

/-- What stands for the status of a publication: the stamp of the status on its way, or what has
been accepted. -/
def PubPC.credit (p : Pub) : PubPC → ℕ
  | .store _ _ _ stamp => stamp
  | .marshal _ obj _ => p.stampOf obj
  | .statusSend _ _ stamp _ | .statusWait _ _ stamp _ _ => stamp
  | _ => p.statusSeen

/-- What a thread has behind it, apart from that. -/
def PubPC.Linked (p : Pub) : PubPC → Prop
  | .stage (.mark pod state _) => pod.key = k ∧ state ≠ .ready
  | .stage s => s.pod.key = k
  | .statusWait uid _ stamp _ request => p.sent[request]? = some (.podStatus uid stamp)
  | .travel request => request < p.sent.length
  | _ => True

structure PubPC.Backed (p : Pub) (t : PubPC) : Prop where
  credit : t.publishing u p = true → p.tracks k u = true → p.readyMoves ≤ t.credit p
  linked : t.Linked k p

structure StatusInv (p : Pub) : Prop where
  answered : ∀ (r : ℕ) stamp, p.answers.get r = some true →
    p.sent[r]? = some (.podStatus u stamp) → stamp ≤ p.statusSeen
  answers_lt : ∀ r b, p.answers.get r = some b → r < p.sent.length

variable {snapshot k u} {p p' : Pub} {t t' : PubPC} {a : PubAnswer} {new : List PubPC}

/- The points that are not publications. -/
theorem PubPC.Backed.idle (h : t.publishing u p = false) (hl : t.Linked k p) : t.Backed k u p := by
  refine ⟨fun hp => ?_, hl⟩
  rw [h] at hp
  cases hp

theorem PubPC.Linked.mono (h : t.Linked k p)
    (hsent : ∀ (r : ℕ) q, p.sent[r]? = some q → p'.sent[r]? = some q) : t.Linked k p' := by
  cases t with
  | statusWait uid status stamp attempt request => exact hsent _ _ h
  | travel request =>
    have hq : p.sent[request]? = some (p.sent.get ⟨request, h⟩) := List.getElem?_eq_getElem h
    exact (List.getElem?_eq_some_iff.mp (hsent _ _ hq)).1
  | stage s => cases s <;> exact h
  | _ => trivial

theorem publishing_of_sent (h : t.Linked k p)
    (hsent : ∀ (r : ℕ) q, p.sent[r]? = some q → p'.sent[r]? = some q) :
    t.publishing u p' = t.publishing u p := by
  cases t with
  | travel request =>
    have hq : p.sent[request]? = some (p.sent.get ⟨request, h⟩) := List.getElem?_eq_getElem h
    simp only [PubPC.publishing, hq, hsent _ _ hq]
  | _ => rfl

/- The others while one thread steps. -/
theorem PubPC.Backed.mono (h : t.Backed k u p)
    (hsent : ∀ (r : ℕ) q, p.sent[r]? = some q → p'.sent[r]? = some q)
    (hseen : p.statusSeen ≤ p'.statusSeen) (hstamps : p'.stamps = p.stamps)
    (hmoves : t.publishing u p = true → p'.tracks k u = true →
      p.tracks k u = true ∧ p'.readyMoves = p.readyMoves) : t.Backed k u p' := by
  refine ⟨fun hp htr => ?_, h.linked.mono hsent⟩
  rw [publishing_of_sent h.linked hsent] at hp
  obtain ⟨htr, hm⟩ := hmoves hp htr
  have hcredit := h.credit hp htr
  rw [hm]
  cases t with
  | store | statusSend | statusWait => exact hcredit
  | marshal uid obj status => cases obj <;> simpa only [PubPC.credit, Pub.stampOf, hstamps] using hcredit
  | _ => exact hcredit.trans hseen

/- The others while one thread stores a status in an object. -/
theorem PubPC.Backed.stored {ref stamp : ℕ} (h : t.Backed k u p)
    (hnew : t.marshals u ref = true → p.readyMoves ≤ stamp) :
    t.Backed k u { p with stamps := p.stamps.set ref stamp } := by
  refine ⟨fun hp htr => ?_, h.linked.mono fun _ _ h => h⟩
  have hcredit : p.readyMoves ≤ t.credit p := h.credit (by cases t <;> exact hp) htr
  cases t with
  | marshal uid obj status =>
    cases obj with
    | copy => exact hcredit
    | shared r =>
      simp only [PubPC.credit, Pub.stampOf, GoMap.get_set]
      by_cases hr : r = ref
      · have hu : (uid == u) = true := hp
        simpa [hr] using hnew (by simp [PubPC.marshals, hu, hr])
      · simpa [hr, PubPC.credit, Pub.stampOf] using hcredit
  | _ => exact hcredit

/-! ### Staging -/

/- An accepted write leaves the tracked incarnations alone. -/
theorem accepted_tracked {t : Tables} {pod : Pod} {state : LifecycleState} {message : String}
    (key : Key) (uid : UID)
    (h : t.refusesLifecycle pod ⟨state, t.stampedGeneration pod, message⟩ = false) :
    (t.applyLifecycleLocked pod state message).1.trackedPodMatches key uid =
      t.trackedPodMatches key uid := by
  rw [applyLifecycleLocked_of_accepted _ _ _ _ h]
  unfold trackedPodMatches
  dsimp only
  cases hp : t.pods.get pod.key with
  | none => rfl
  | some tracked =>
    dsimp only
    rw [GoMap.get_set]
    by_cases hk : key = pod.key
    · rw [if_pos hk, hk, hp]
      rfl
    · rw [if_neg hk]

theorem stage_tracked (s : Stager) (t : Tables) (key : Key) (uid : UID) :
    (s.stage t).1.trackedPodMatches key uid = t.trackedPodMatches key uid := by
  rcases s.stage_cases t with heq | ⟨state, message, -, hacc, heq⟩
  · rw [heq]
  · rw [heq]
    exact accepted_tracked key uid hacc

/- Of the stagers that do not publish a status, only a republication writes ready, over ready. -/
theorem ready_of_no_status {s : Stager} {t : Tables} {uid : UID} (hk : (PubPC.stage s).Linked k p)
    (hw : s.Writes t .ready) (hno : s.publishes = false) (hu : s.pod.uid = uid) :
    s = .republish s.pod ∧ t.intentReady k uid = true := by
  cases s with
  | mark pod state message => exact absurd hw.symm hk.2
  | ready pod => cases hno
  | wake pod vmID state message =>
    have hw : LifecycleState.ready = state := hw
    subst hw
    cases hno
  | lift pod => cases hw
  | republish pod =>
    obtain ⟨e, he, huid, hst⟩ := hw
    have hkey : pod.key = k := hk
    refine ⟨rfl, ?_⟩
    unfold intentReady
    rw [← hkey, he, Option.any_some, huid, hst]
    simp [show pod.uid = uid from hu]

/-! ### Steps -/

variable (snapshot k) in
theorem recordLifecycleFlushed_pods (t : Tables) (uid : UID) (status : LifecycleStatus) :
    (t.recordLifecycleFlushed snapshot k uid status).pods = t.pods := by
  unfold recordLifecycleFlushed
  split
  · rfl
  · split <;> rfl

variable (snapshot k) in
theorem dropSupersededLifecycle_pods (t : Tables) (uid : UID) (status : LifecycleStatus) :
    (t.dropSupersededLifecycle snapshot k uid status).pods = t.pods := by
  unfold dropSupersededLifecycle
  split <;> rfl

/- Nothing moves to ready and no status is lost: what every step but a staging does. -/
structure Pub.Calm (k : Key) (u : UID) (p p' : Pub) : Prop where
  sent : ∀ (r : ℕ) q, p.sent[r]? = some q → p'.sent[r]? = some q
  seen : p.statusSeen ≤ p'.statusSeen
  stamps : p'.stamps = p.stamps
  tracks : p'.tracks k u = p.tracks k u
  moves : p'.readyMoves = p.readyMoves

theorem PubPC.Backed.calm (h : t.Backed k u p) (hc : p.Calm k u p') : t.Backed k u p' :=
  h.mono hc.sent hc.seen hc.stamps fun _ htr => ⟨hc.tracks ▸ htr, hc.moves⟩

theorem Pub.Calm.refl (p : Pub) : p.Calm k u p := ⟨fun _ _ h => h, le_rfl, rfl, rfl, rfl⟩

theorem Pub.Calm.ofTables {t : Tables} (h : t.pods = p.tables.pods) :
    p.Calm k u { p with tables := t } := by
  refine ⟨fun _ _ h => h, le_rfl, rfl, ?_, rfl⟩
  unfold Pub.tracks trackedPodMatches
  rw [h]

theorem Pub.Calm.send (r : Request) : p.Calm k u { p with sent := p.sent ++ [r] } :=
  ⟨fun _ _ h => getElem?_snoc h, le_rfl, rfl, rfl, rfl⟩

theorem StatusInv.send (h : StatusInv u p) (r : Request) :
    StatusInv u { p with sent := p.sent ++ [r] } := by
  refine ⟨fun i stamp ha hi => ?_, fun i b hb => ?_⟩
  · rcases Program.getElem?_snoc_cases hi with hold | ⟨hlast, -⟩
    · exact h.answered i stamp ha hold
    · have hlt := h.answers_lt i true ha
      omega
  · have hlt := h.answers_lt i b hb
    simp only [List.length_append, List.length_singleton]
    omega

/- The answer to a request, with the status it brought if it was accepted. -/
theorem StatusInv.answer {i n : ℕ} {b : Bool} {r : Request} (h : StatusInv u p)
    (hi : p.sent[i]? = some r) (hn : p.statusSeen ≤ n)
    (hb : ∀ stamp, b = true → r = .podStatus u stamp → stamp ≤ n) (p' : Pub)
    (hsent : p'.sent = p.sent) (hans : p'.answers = p.answers.set i b) (hseen : p'.statusSeen = n) :
    StatusInv u p' := by
  refine ⟨fun j stamp ha hj => ?_, fun j c hc => ?_⟩
  · rw [hans] at ha
    rw [hsent] at hj
    rw [hseen]
    by_cases hij : j = i
    · subst hij
      rw [hi] at hj
      have hbt := (GoMap.get_set_self p.answers j b).symm.trans ha
      exact hb stamp (Option.some.inj hbt) (Option.some.inj hj)
    · have ha' : p.answers.get j = some true := (GoMap.get_set_ne _ _ hij).symm.trans ha
      exact (h.answered j stamp ha' hj).trans hn
  · rw [hans] at hc
    rw [hsent]
    by_cases hij : j = i
    · subst hij
      exact (List.getElem?_eq_some_iff.mp hi).1
    · exact h.answers_lt j c ((GoMap.get_set_ne _ _ hij).symm.trans hc)

theorem travel_statusInv {request : ℕ} {r : Request} (hp : StatusInv u p)
    (hr : p.sent[request]? = some r) :
    StatusInv u
      { (p.arrive u r).1 with answers := (p.arrive u r).1.answers.set request (p.arrive u r).2 } ∧
    p.Calm k u
      { (p.arrive u r).1 with answers := (p.arrive u r).1.answers.set request (p.arrive u r).2 } := by
  rcases Pub.arrive_cases u p r with heq | ⟨uid, stamp, obj, rfl, -, -, heq⟩ |
    ⟨uid, status, staging, obj, rfl, hapi, hobj, heq⟩ <;> rw [heq]
  · exact ⟨hp.answer hr le_rfl (fun _ hb => by cases hb) _ rfl rfl rfl, fun _ _ h => h, le_rfl, rfl,
      rfl, rfl⟩
  · have hseen : p.statusSeen ≤ if uid = u then max p.statusSeen stamp else p.statusSeen := by
      split <;> omega
    refine ⟨hp.answer hr hseen (fun s _ hs => ?_) _ rfl rfl rfl, fun _ _ h => h, hseen, rfl, rfl, rfl⟩
    cases hs
    rw [if_pos rfl]
    exact le_max_right _ _
  · exact ⟨hp.answer hr le_rfl (fun _ _ hs => by cases hs) _ rfl rfl rfl, fun _ _ h => h, le_rfl,
      rfl, rfl, rfl⟩

/- A staging moves the intent to ready only while nothing is published, and what it flushes
without a status of its own has one behind it. -/
theorem stage_backed {c : Config Pub PubPC} {s : Stager} (hp : StatusInv u c.shared)
    (ht : (PubPC.stage s).Backed k u c.shared) (hg : s.Careful k u c)
    (h : (PubPC.stage s).step snapshot k u c.shared a = some (p', t', new)) :
    StatusInv u p' ∧ t'.Backed k u p' ∧
      (∀ x ∈ c.threads, x.Backed k u c.shared → x.Backed k u p') ∧ new = [] := by
  rcases s.stage_cases c.shared.tables with heq | ⟨state, message, hw, hacc, heq⟩
  · simp only [PubPC.step, heq] at h
    cases h
    exact ⟨hp, by cases s <;> exact .idle rfl trivial, fun x _ hx => hx, rfl⟩
  · have htr := stage_tracked s c.shared.tables k u
    have hmove := hg.1
    simp only [heq] at htr hmove
    simp only [PubPC.step, heq] at h
    cases h
    refine ⟨⟨hp.answered, hp.answers_lt⟩, ?_, fun x hx hb => ?_, rfl⟩
    · cases hpub : s.publishes with
      | true => exact .idle rfl trivial
      | false =>
        refine ⟨fun hready _ => ?_, trivial⟩
        simp only [Bool.false_eq_true, if_false, PubPC.publishing, Bool.and_eq_true,
          beq_iff_eq] at hready
        obtain ⟨⟨hu, rfl⟩, -⟩ := hready
        obtain ⟨hrep, hint⟩ := ready_of_no_status ht.linked hw hpub hu
        have hle := hg.2 hrep (by rw [heq]; rfl) hint
        simpa [hint, PubPC.credit] using hle
    · refine hb.mono (fun _ _ h => h) le_rfl rfl fun hpub htracks => ⟨htr.symm.trans htracks, ?_⟩
      split
      next hcond =>
        simp only [Bool.and_eq_true, Bool.not_eq_true'] at hcond
        have hidle := hmove hcond.2 hcond.1 x hx
        rw [hpub] at hidle
        cases hidle
      next => rfl

theorem retryFlush_backed {uid : UID} {status : LifecycleStatus} (attempt : ℕ) (cut : Bool)
    (hcred : (uid == u && status.state == .ready) = true → p.tracks k u = true →
      p.readyMoves ≤ p.statusSeen) : (PubPC.retryFlush uid status attempt cut).Backed k u p := by
  unfold PubPC.retryFlush
  split
  · refine ⟨fun hpub => hcred ?_, trivial⟩
    simpa [PubPC.publishing] using hpub
  · exact .idle rfl trivial

theorem retryStatus_backed {uid : UID} {stamp : ℕ} (status : LifecycleStatus) (attempt : ℕ)
    (cut : Bool) (hcred : (uid == u) = true → p.tracks k u = true → p.readyMoves ≤ stamp) :
    (PubPC.retryStatus uid status stamp attempt cut).Backed k u p := by
  unfold PubPC.retryStatus
  split
  · split
    -- the flush goes on with a canceled context, so it sends nothing
    · exact .idle (by simp [PubPC.publishing]) trivial
    · exact ⟨hcred, trivial⟩
  · exact .idle rfl trivial

theorem refreshed_backed (uid : UID) (obj : PodObject) (publish : Option LifecycleStatus)
    (hcred : (uid == u && publish.isSome) = true → p.tracks k u = true →
      p.readyMoves ≤ p.stampOf obj) : (PubPC.refreshed uid obj publish).Backed k u p := by
  cases publish with
  | none => exact .idle rfl trivial
  | some status => exact ⟨fun hpub => hcred (by simpa [PubPC.refreshed, PubPC.publishing] using hpub), trivial⟩

/- One step of a thread. -/
theorem step_backed {c : Config Pub PubPC} (hp : StatusInv u c.shared) (ht : t.Backed k u c.shared)
    (hg : t.Careful k u c) (h : t.step snapshot k u c.shared a = some (p', t', new)) :
    StatusInv u p' ∧ t'.Backed k u p' ∧
      (∀ x ∈ c.threads, x.Backed k u c.shared → x.Backed k u p') ∧ ∀ x ∈ new, x.Backed k u p' := by
  have hstay : ∀ x : PubPC, x.Backed k u c.shared → StatusInv u c.shared ∧ x.Backed k u c.shared ∧
      (∀ y ∈ c.threads, y.Backed k u c.shared → y.Backed k u c.shared) ∧
      ∀ y ∈ ([] : List PubPC), y.Backed k u c.shared :=
    fun x hx => ⟨hp, hx, fun _ _ hy => hy, fun y hy => by cases hy⟩
  cases t with
  | stage s =>
    obtain ⟨hinv, hown, hothers, rfl⟩ := stage_backed hp ht hg h
    exact ⟨hinv, hown, hothers, fun x hx => by cases hx⟩
  | capture =>
    simp only [PubPC.step] at h
    split at h <;> cases h
    · exact hstay _ (.idle rfl trivial)
    next e he =>
      refine hstay _ ?_
      split
      · exact .idle rfl trivial
      · split
        · exact .idle rfl trivial
        next hne => exact .idle (by simp [PubPC.publishing, hne]) trivial
  | getPod uid status =>
    simp only [PubPC.step] at h
    split at h <;> cases h
    · exact hstay _ (.idle rfl trivial)
    next hnone =>
      refine hstay _ ⟨fun _ htr => ?_, trivial⟩
      simp [Pub.tracks, trackedPodMatches, hnone] at htr
  | refresh uid obj publish =>
    cases h
    refine hstay _ ?_
    split
    · exact ⟨fun _ _ => le_rfl, trivial⟩
    next hno =>
      refine refreshed_backed uid obj publish fun _ htr => ?_
      unfold Pub.tracks trackedPodMatches at htr
      cases hp : c.shared.tables.pods.get k with
      | none => simp [hp] at htr
      | some pod => simp [GoMap.has, hp] at hno
  | store uid obj publish stamp =>
    have hown : (uid == u && publish.isSome) = true → c.shared.tracks k u = true →
        c.shared.readyMoves ≤ stamp := ht.credit
    cases obj with
    | copy old =>
      cases h
      exact hstay _ (refreshed_backed uid _ publish hown)
    | shared ref =>
      cases h
      refine ⟨⟨hp.answered, hp.answers_lt⟩, refreshed_backed uid _ publish fun hpub htr => ?_,
        fun x hx hb => hb.stored fun hm => hg (List.any_eq_true.mpr ⟨x, hx, hm⟩), fun x hx => by cases hx⟩
      simpa [Pub.stampOf] using hown hpub htr
  | marshal uid obj status =>
    cases h
    exact hstay _ ⟨ht.credit, trivial⟩
  | statusSend uid status stamp attempt =>
    simp only [PubPC.step] at h
    split at h <;> cases h
    · exact hstay _ (retryStatus_backed _ _ _ ht.credit)
    · have hcalm : c.shared.Calm k u _ := .send (.podStatus uid stamp)
      refine ⟨hp.send _, ⟨ht.credit, by simp [PubPC.Linked]⟩, fun x _ hx => hx.calm hcalm,
        fun x hx => ?_⟩
      rw [List.mem_singleton.mp hx]
      exact .idle (by simp [PubPC.publishing, Request.setsReady]) (by simp [PubPC.Linked])
  | statusWait uid status stamp attempt request =>
    simp only [PubPC.step] at h
    split at h
    · cases h
      exact hstay _ (retryStatus_backed _ _ _ ht.credit)
    · obtain ⟨accepted, hans, heq⟩ := Option.map_eq_some_iff.mp h
      cases heq
      refine hstay _ ?_
      cases accepted with
      | false => exact .idle rfl trivial
      | true =>
        refine ⟨fun hpub htr => ?_, trivial⟩
        simp only [if_true, PubPC.publishing, Bool.and_eq_true, beq_iff_eq] at hpub
        obtain ⟨⟨rfl, -⟩, -⟩ := hpub
        exact (ht.credit (beq_self_eq_true _) htr).trans (hp.answered request stamp hans ht.linked)
  | own uid status attempt cut =>
    cases h
    refine hstay _ ?_
    split
    · exact ⟨ht.credit, trivial⟩
    · exact .idle rfl trivial
  | send uid status staging attempt cut =>
    cases cut with
    | true =>
      cases h
      exact hstay _ (.idle (by simp [PubPC.retryFlush, PubPC.publishing]) (by
        simp [PubPC.retryFlush, PubPC.Linked]))
    | false =>
      have hcred : (uid == u && status.state == .ready) = true → c.shared.tracks k u = true →
          c.shared.readyMoves ≤ c.shared.statusSeen := by
        simpa [PubPC.publishing, PubPC.credit] using ht.credit
      simp only [PubPC.step, Bool.false_or] at h
      split at h <;> cases h
      · exact hstay _ (retryFlush_backed _ _ hcred)
      · have hcalm : c.shared.Calm k u _ := .send (.lifecycle uid status staging)
        refine ⟨hp.send _, ⟨hcred, trivial⟩, fun x _ hx => hx.calm hcalm, fun x hx => ?_⟩
        rw [List.mem_singleton.mp hx]
        refine ⟨fun hpub => hcred ?_, by simp [PubPC.Linked]⟩
        simpa [PubPC.publishing, Request.setsReady] using hpub
  | wait uid status staging attempt request =>
    simp only [PubPC.step] at h
    split at h
    · cases h
      exact hstay _ (retryFlush_backed _ _ ht.credit)
    · obtain ⟨accepted, -, heq⟩ := Option.map_eq_some_iff.mp h
      cases heq
      refine hstay _ ?_
      split <;> exact .idle rfl trivial
  | record uid status staging =>
    cases h
    have hcalm : c.shared.Calm k u _ :=
      .ofTables (recordLifecycleFlushed_pods snapshot k _ uid status)
    exact ⟨⟨hp.answered, hp.answers_lt⟩, .idle rfl trivial, fun x _ hx => hx.calm hcalm,
      fun x hx => by cases hx⟩
  | drop uid status =>
    cases h
    have hcalm : c.shared.Calm k u _ :=
      .ofTables (dropSupersededLifecycle_pods snapshot k _ uid status)
    exact ⟨⟨hp.answered, hp.answers_lt⟩, .idle rfl trivial, fun x _ hx => hx.calm hcalm,
      fun x hx => by cases hx⟩
  | travel request =>
    obtain ⟨r, hr, heq⟩ := Option.map_eq_some_iff.mp h
    cases heq
    obtain ⟨hinv, hcalm⟩ := travel_statusInv hp hr
    exact ⟨hinv, .idle rfl trivial, fun x _ hx => hx.calm hcalm, fun x hx => by cases hx⟩
  | done => cases h

/-! ### Runs -/

theorem around_backed {c : Config Pub PubPC} {o : PubAround} (hp : StatusInv u c.shared)
    (hg : Careful snapshot k u c (.env o)) (h : c.shared.around snapshot u o = some p') :
    StatusInv u p' ∧ ∀ x ∈ c.threads, x.Backed k u c.shared → x.Backed k u p' := by
  cases o with
  | table op =>
    simp only [Pub.around] at h
    split at h <;> cases h
    refine ⟨⟨hp.answered, hp.answers_lt⟩, fun x hx hb => ?_⟩
    refine hb.mono (fun _ _ h => h) le_rfl rfl fun hpub htr => ⟨?_, rfl⟩
    by_contra hno
    have hidle := hg (Bool.eq_false_iff.mpr hno) htr x hx
    rw [hpub] at hidle
    cases hidle
  | apiDelete =>
    cases h
    exact ⟨⟨hp.answered, hp.answers_lt⟩,
      fun x _ hb => hb.calm ⟨fun _ _ h => h, le_rfl, rfl, rfl, rfl⟩⟩
  | apiCreate uid =>
    simp only [Pub.around] at h
    split at h <;> cases h
    exact ⟨⟨hp.answered, hp.answers_lt⟩,
      fun x _ hb => hb.calm ⟨fun _ _ h => h, le_rfl, rfl, rfl, rfl⟩⟩

theorem next_backed (c : Config Pub PubPC) (e : PoolEvent PubPC PubAnswer PubAround)
    (c' : Config Pub PubPC)
    (hc : Program.Stable (StatusInv u) (fun p _ t => t.Backed k u p) c)
    (hg : Careful snapshot k u c e) (h : (publishers snapshot k u).next c e = some c') :
    Program.Stable (StatusInv u) (fun p _ t => t.Backed k u p) c' := by
  refine Program.next_stable (publishers snapshot k u) (G := Careful snapshot k u) ?_ ?_ ?_
    c e c' hc hg h
  · intro c t _ _ he
    cases t with
    | stage s =>
      refine .idle rfl ?_
      cases s <;> simpa [publishers, PubPC.entry, PubPC.Linked, Stager.pod] using he
    | capture | refresh => exact .idle rfl trivial
    | _ => cases he
  · intro c i t a p' t' new hc hg ht hs
    obtain ⟨hinv, hown, hothers, hnew⟩ := step_backed hc.1 (hc.2 i t ht) (hg t ht) hs
    exact ⟨hinv, hown, fun j x _ hx => hothers x (List.mem_of_getElem? hx) (hc.2 j x hx),
      fun j x _ hx => hnew x hx⟩
  · intro c o p' hc hg ho
    obtain ⟨hinv, hothers⟩ := around_backed hc.1 hg ho
    exact ⟨hinv, fun j x hx => hothers x (List.mem_of_getElem? hx) (hc.2 j x hx)⟩

/- A ready patch that lands has the status behind it. -/
theorem statusFirst_of_backed (c : Config Pub PubPC) (e : PoolEvent PubPC PubAnswer PubAround)
    (hc : Program.Stable (StatusInv u) (fun p _ t => t.Backed k u p) c) : StatusFirst k u c e := by
  cases e with
  | run i a =>
    intro t ht hland htr
    cases t with
    | travel request =>
      simp only [PubPC.landsReady, Bool.and_eq_true] at hland
      exact (hc.2 i _ ht).credit hland.1 htr
    | _ => cases hland
  | _ => trivial

/-- When the steps are careful and the incarnation is not tracked anew during a publication, every
ready that the apiserver accepts for it follows a status computed since the intent became ready. -/
theorem status_before_ready (t : Tables) (api : Option ApiPod)
    (es : List (PoolEvent PubPC PubAnswer PubAround))
    (hg : (publishers snapshot k u).machine.Guarded (Careful snapshot k u)
      ⟨Pub.start snapshot k u t api, []⟩ es) :
    (publishers snapshot k u).machine.Guarded (StatusFirst k u)
      ⟨Pub.start snapshot k u t api, []⟩ es := by
  have hinit : Program.Stable (StatusInv u) (fun p _ (t : PubPC) => t.Backed k u p)
      ⟨Pub.start snapshot k u t api, []⟩ := by
    refine ⟨⟨fun r stamp ha _ => ?_, fun r b hb => ?_⟩, fun i t ht => by cases ht⟩
    · cases (GoMap.get_empty r).symm.trans ha
    · cases (GoMap.get_empty r).symm.trans hb
  exact Machine.guarded_of_invariant _ next_backed (fun c e hc _ => statusFirst_of_backed c e hc)
    hinit hg

end StatusFirst
/- An update of the sample pod that only bumps its generation. -/
def bumpedPod : Pod := { samplePod with generation := 4 }

/- The status of ready is accepted before the bump is republished. -/
def carefulTrace : List (PoolEvent PubPC PubAnswer PubAround) :=
  [.start (.stage (.ready samplePod)), .run 0 calm, .run 0 calm, .run 0 calm, .run 0 calm,
   .run 0 calm, .run 1 calm,
   .run 0 calm, .run 0 calm, .run 0 calm, .run 2 calm, .run 0 calm, .run 0 calm,
   .env (.table (.trackPodUnlessDeleting bumpedPod none)), .start (.stage (.republish bumpedPod)),
   .run 3 calm, .run 3 calm, .run 3 calm, .run 4 calm]

/- All three attempts at the status fail, and the bump is republished before the next pass. -/
def failedStatusTrace : List (PoolEvent PubPC PubAnswer PubAround) :=
  [.start (.stage (.ready samplePod)), .run 0 calm, .run 0 calm, .run 0 calm, .run 0 calm,
   .run 0 ⟨true, false⟩, .run 0 ⟨true, false⟩, .run 0 ⟨true, false⟩,
   .env (.table (.trackPodUnlessDeleting bumpedPod none)), .start (.stage (.republish bumpedPod)),
   .run 1 calm, .run 1 calm, .run 1 calm, .run 2 calm]

theorem status_before_ready_republished :
    (∃ c, (publishers (id : LifecycleStatus → LifecycleStatus) "ns/a" "u").machine.exec
        ⟨Pub.start id "ns/a" "u" sampleTracked (some ⟨"u", none⟩), []⟩ carefulTrace = some c ∧
      c.shared.api = some ⟨"u", some ⟨.ready, 4, ""⟩⟩) ∧
    (publishers (id : LifecycleStatus → LifecycleStatus) "ns/a" "u").machine.Guarded
      (StatusFirst "ns/a" "u") ⟨Pub.start id "ns/a" "u" sampleTracked (some ⟨"u", none⟩), []⟩
      carefulTrace := by
  refine ⟨?_, status_before_ready sampleTracked (some ⟨"u", none⟩) carefulTrace (by decide)⟩
  have hrun : ((publishers (id : LifecycleStatus → LifecycleStatus) "ns/a" "u").machine.exec
      ⟨Pub.start id "ns/a" "u" sampleTracked (some ⟨"u", none⟩), []⟩ carefulTrace).map
      (fun c => c.shared.api) = some (some ⟨"u", some ⟨.ready, 4, ""⟩⟩) := by decide
  exact Option.map_eq_some_iff.mp hrun

theorem ready_before_status_on_generation_bump :
    ¬ ∀ (t : Tables) (api : Option ApiPod) (es : List (PoolEvent PubPC PubAnswer PubAround)),
      (publishers (id : LifecycleStatus → LifecycleStatus) "ns/a" "u").machine.Guarded
        (StatusFirst "ns/a" "u") ⟨Pub.start id "ns/a" "u" t api, []⟩ es := by
  intro hall
  exact absurd (hall sampleTracked (some ⟨"u", none⟩) failedStatusTrace) (by decide)

end VkCocoon
