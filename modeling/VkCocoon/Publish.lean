import VkCocoon.Lib.Pool
import VkCocoon.Ops

/-!
# Publication of the lifecycle state

The callers that move the lifecycle intent of one key and then flush it, the passes of
`reconcileAllLifecycle`, and the apiserver. A patch is sent and arrives in two steps: the
request travels as a thread of its own, so that a patch sent earlier may arrive later and a
caller may give up on one that still arrives.

A status is computed, stored in the pod object and read from there for the patch, each in a
section of its own. Calls that share a pod object share its status.

Four fields of the state keep the history and decide nothing: the statuses staged so far,
which of them the last annotation patch accepted was sent for, how often the intent moved
to ready, and the last of these moves after which an accepted status was computed.
-/

namespace VkCocoon
open Lib Tables

/-- The object of the key at the apiserver, with the lifecycle annotations it carries. -/
structure ApiPod where
  uid : UID
  lifecycle : Option LifecycleStatus
deriving DecidableEq, Repr

/-- A patch: lifecycle annotations, or the status subresource. `staging` and `stamp` belong to
the history. -/
inductive Request where
  | lifecycle (uid : UID) (status : LifecycleStatus) (staging : ℕ)
  | podStatus (uid : UID) (stamp : ℕ)
deriving DecidableEq, Repr

/-- The pod object a call was given: one that other calls may hold too, or a copy of its own
(`GetPod`) with the status it carries. A status is told by its stamp, the moves of the intent to
ready that its computation saw. -/
inductive PodObject where
  | shared (ref : ℕ)
  | copy (stamp : ℕ)
deriving DecidableEq, Repr

structure Pub where
  tables : Tables
  /-- `pod.Status` of the shared objects -/
  stamps : GoMap ℕ ℕ
  api : Option ApiPod
  sent : List Request
  /-- what came of each request that has arrived: accepted, or superseded -/
  answers : GoMap ℕ Bool
  history : List (UID × LifecycleStatus)
  landed : Option ℕ
  readyMoves : ℕ
  statusSeen : ℕ

/-- The callers that stage a lifecycle state and then flush it. -/
inductive Stager where
  /-- `markLifecycleState`; no caller of it passes ready -/
  | mark (pod : Pod) (state : LifecycleState) (message : String)
  /-- `markReadyPublished` -/
  | ready (pod : Pod)
  /-- `markReadyAfterIP` -/
  | wake (pod : Pod) (vmID : VMID) (state : LifecycleState) (message : String)
  /-- `liftHibernateFailure` -/
  | lift (pod : Pod)
  | republish (pod : Pod)
deriving DecidableEq, Repr

namespace Stager

def pod : Stager → Pod
  | .mark pod _ _ | .ready pod | .wake pod _ _ _ | .lift pod | .republish pod => pod

def applied : Tables × LifecycleStatus × Bool → Tables × Option LifecycleStatus
  | (t, status, applied) => (t, if applied then some status else none)

/-- The locked section; the status is there when it was applied. -/
def stage (t : Tables) : Stager → Tables × Option LifecycleStatus
  | .mark pod state message => applied (t.applyLifecycleLocked pod state message)
  | .ready pod => applied (t.applyLifecycleLocked pod .ready "")
  | .wake pod vmID state message => t.setLifecycleStateForWake pod vmID state message
  | .lift pod =>
    match t.liftHibernateFailureLocked pod with
    | (t, _, status) => (t, status)
  | .republish pod => t.republishLifecycleOnGenerationBump pod

end Stager

inductive PubPC where
  | stage (s : Stager)
  -- reconcileAllLifecycle
  | capture
  | getPod (uid : UID) (status : LifecycleStatus)
  -- refreshStatus, for publishReadyLifecycle or, without a lifecycle status, for refreshAndNotify
  | refresh (uid : UID) (obj : PodObject) (publish : Option LifecycleStatus)
  | store (uid : UID) (obj : PodObject) (publish : Option LifecycleStatus) (stamp : ℕ)
  -- publishPodStatus
  | marshal (uid : UID) (obj : PodObject) (status : LifecycleStatus)
  | statusSend (uid : UID) (status : LifecycleStatus) (stamp attempt : ℕ)
  | statusWait (uid : UID) (status : LifecycleStatus) (stamp attempt request : ℕ)
  -- flushLifecycle; `cut` when its context is already canceled
  | own (uid : UID) (status : LifecycleStatus) (attempt : ℕ) (cut : Bool)
  | send (uid : UID) (status : LifecycleStatus) (staging attempt : ℕ) (cut : Bool)
  | wait (uid : UID) (status : LifecycleStatus) (staging attempt request : ℕ)
  | record (uid : UID) (status : LifecycleStatus) (staging : ℕ)
  | drop (uid : UID) (status : LifecycleStatus)
  /-- a request that has not arrived -/
  | travel (request : ℕ)
  | done
deriving DecidableEq, Repr

/-- `failed`: the call returns an error, whether or not its request arrives. `cut`: the sleep
after it finds the context canceled. -/
structure PubAnswer where
  failed : Bool
  cut : Bool
deriving DecidableEq, Repr

section Machine
variable {S : Type} [DecidableEq S] (snapshot : LifecycleStatus → S) (k : Key) (u : UID)

/-- `u` has an intent, and it is ready. -/
def Tables.intentReady (t : Tables) : Bool :=
  (t.lifecycleIntent.get k).any fun e => e.uid == u && e.status.state == .ready

/-- What the apiserver does with a request: whether it accepts it. -/
def Pub.arrive (p : Pub) (r : Request) : Pub × Bool :=
  match p.api, r with
  | some obj, .lifecycle uid status staging =>
    if obj.uid = uid then
      ({ p with api := some { obj with lifecycle := some status }, landed := some staging }, true)
    else (p, false)
  | some obj, .podStatus uid stamp =>
    if obj.uid = uid then
      ({ p with statusSeen := if uid = u then max p.statusSeen stamp else p.statusSeen }, true)
    else (p, false)
  | none, _ => (p, false)

/-- Where a stager goes with the status it staged. -/
def Stager.publishes : Stager → Bool
  | .ready _ => true
  | .wake _ _ state _ => state == .ready
  | _ => false

/-- Where a stager goes that was refused. -/
def Stager.refused : Stager → PubPC
  | .ready pod => .refresh pod.uid (.shared pod.ref) none
  | _ => .done

/-- `pod.Status` -/
def Pub.stampOf (p : Pub) : PodObject → ℕ
  | .shared ref => (p.stamps.get ref).getD 0
  | .copy stamp => stamp

/-- What follows `refreshStatus`; `notify` hands the pod to the framework. -/
def PubPC.refreshed (uid : UID) (obj : PodObject) : Option LifecycleStatus → PubPC
  | some status => .marshal uid obj status
  | none => .done

def Pub.send (p : Pub) (r : Request) (next : ℕ → PubPC) : Pub × PubPC × List PubPC :=
  ({ p with sent := p.sent ++ [r] }, next p.sent.length, [.travel p.sent.length])

/-- The retry of `flushLifecycle` after an error. -/
def PubPC.retryFlush (uid : UID) (status : LifecycleStatus) (attempt : ℕ) (cut : Bool) : PubPC :=
  if attempt + 1 < lifecyclePatchAttempts && !cut then .own uid status (attempt + 1) false else .done

/-- The retry of `patchWithRetry` after an error; a canceled sleep returns nil, so the flush goes
on with the canceled context. -/
def PubPC.retryStatus (uid : UID) (status : LifecycleStatus) (stamp attempt : ℕ) (cut : Bool) :
    PubPC :=
  if attempt + 1 < lifecyclePatchAttempts then
    if cut then .own uid status 0 true else .statusSend uid status stamp (attempt + 1)
  else .done

def PubPC.step (p : Pub) (a : PubAnswer) : PubPC → Option (Pub × PubPC × List PubPC)
  | .stage s =>
    match s.stage p.tables with
    | (t, none) => some ({ p with tables := t }, s.refused, [])
    | (t, some status) =>
      some ({ p with
          tables := t
          history := p.history ++ [(s.pod.uid, status)]
          readyMoves :=
            if t.intentReady k u && !p.tables.intentReady k u then p.readyMoves + 1
            else p.readyMoves },
        if s.publishes then .refresh s.pod.uid (.shared s.pod.ref) (some status) else .own s.pod.uid status 0 false, [])
  | .capture =>
    match p.tables.lifecycleIntent.get k with
    | none => some (p, .done, [])
    | some e =>
      some (p, if e.settled snapshot then .done
        else if e.status.state = .ready then .getPod e.uid e.status
        else .own e.uid e.status 0 false, [])
  | .getPod uid status =>
    match p.tables.pods.get k with
    | some pod => some (p, .refresh pod.uid (.copy (p.stampOf (.shared pod.ref))) (some status), [])
    | none => some (p, .own uid status 0 false, [])
  | .refresh uid obj publish =>
    -- without a tracked pod `GetPodStatus` fails and the status stays as it is
    some (p, if p.tables.pods.has k then .store uid obj publish p.readyMoves
      else .refreshed uid obj publish, [])
  | .store uid obj publish stamp =>
    match obj with
    | .shared ref => some ({ p with stamps := p.stamps.set ref stamp }, .refreshed uid obj publish, [])
    | .copy _ => some (p, .refreshed uid (.copy stamp) publish, [])
  | .marshal uid obj status => some (p, .statusSend uid status (p.stampOf obj) 0, [])
  | .statusSend uid status stamp attempt =>
    if a.failed then some (p, .retryStatus uid status stamp attempt a.cut, [])
    else some (p.send (.podStatus uid stamp) (.statusWait uid status stamp attempt))
  | .statusWait uid status stamp attempt request =>
    if a.failed then some (p, .retryStatus uid status stamp attempt a.cut, [])
    else
      (p.answers.get request).map fun accepted =>
        (p, if accepted then .own uid status 0 false else .done, [])
  | .own uid status attempt cut =>
    some (p, if p.tables.lifecycleOwnedLocked snapshot k uid (snapshot status) then
        .send uid status (p.history.length - 1) attempt cut else .done, [])
  | .send uid status staging attempt cut =>
    if cut || a.failed then some (p, .retryFlush uid status attempt (cut || a.cut), [])
    else some (p.send (.lifecycle uid status staging) (.wait uid status staging attempt))
  | .wait uid status staging attempt request =>
    if a.failed then some (p, .retryFlush uid status attempt a.cut, [])
    else
      (p.answers.get request).map fun accepted =>
        (p, if accepted then .record uid status staging else .drop uid status, [])
  | .record uid status _ =>
    some ({ p with tables := p.tables.recordLifecycleFlushed snapshot k uid status }, .done, [])
  | .drop uid status =>
    some ({ p with tables := p.tables.dropSupersededLifecycle snapshot k uid status }, .done, [])
  | .travel request =>
    (p.sent[request]?).map fun r =>
      match p.arrive u r with
      | (p, accepted) => ({ p with answers := p.answers.set request accepted }, .done, [])
  | .done => none

/-- Sections that are no lifecycle write and no part of a flush, and the apiserver deleting the
pod and creating one of another UID. -/
inductive PubAround where
  | table (op : TableOp)
  | apiDelete
  | apiCreate (uid : UID)
deriving DecidableEq, Repr

def TableOp.isFlush : TableOp → Bool
  | .recordLifecycleFlushed .. | .dropSupersededLifecycle .. => true
  | _ => false

def Pub.around (p : Pub) : PubAround → Option Pub
  | .table op =>
    if op.isLifecycleWrite || op.isFlush then none
    else some { p with tables := op.run snapshot p.tables }
  | .apiDelete => some { p with api := none }
  | .apiCreate uid =>
    if p.api.isSome || uid == u then none else some { p with api := some ⟨uid, none⟩ }

/-- A refresh that publishes nothing is a `refreshAndNotify` of `CreatePod`, `UpdatePod`, a resumed
hibernate or a probe. -/
def PubPC.entry : PubPC → Bool
  | .stage (.mark pod state _) => pod.key == k && state != .ready
  | .stage s => s.pod.key == k
  | .capture | .refresh _ _ none => true
  | _ => false

/-- The publications of key `k`; the history is kept for UID `u`. -/
def publishers : Program Pub PubPC PubAnswer PubAround where
  entry _ t := t.entry k
  step p _ t a := t.step snapshot k u p a
  env p o := p.around snapshot u o

/-- The publications start from the tables of startup, with nothing on its way. -/
def Pub.start (t : Tables) (api : Option ApiPod) : Pub where
  tables := t
  stamps := .empty
  api := api
  sent := []
  answers := .empty
  history := ((t.lifecycleIntent.get k).map fun e => (e.uid, e.status)).toList
  landed :=
    if (t.lifecycleIntent.get k).any fun e => e.uid == u && e.settled snapshot then some 0 else none
  readyMoves := 0
  statusSeen := 0

end Machine
/-! ### What staging does -/

namespace Stager

/-- The states a stager may write. -/
def Writes (t : Tables) : Stager → LifecycleState → Prop
  | .mark _ state _, st | .wake _ _ state _, st => st = state
  | .ready _, st => st = .ready
  | .lift _, st => st = .creating
  | .republish pod, st =>
    ∃ e, t.lifecycleIntent.get pod.key = some e ∧ e.uid = pod.uid ∧ e.status.state = st

theorem apply_cases (t : Tables) (pod : Pod) (state : LifecycleState) (message : String) :
    applied (t.applyLifecycleLocked pod state message) = (t, none) ∨
    applied (t.applyLifecycleLocked pod state message) =
      ((t.applyLifecycleLocked pod state message).1,
        some ⟨state, t.stampedGeneration pod, message⟩) ∧
      t.refusesLifecycle pod ⟨state, t.stampedGeneration pod, message⟩ = false := by
  cases hr : t.refusesLifecycle pod ⟨state, t.stampedGeneration pod, message⟩ with
  | true =>
    rw [applyLifecycleLocked_of_refused _ _ _ _ hr]
    exact Or.inl rfl
  | false =>
    rw [applyLifecycleLocked_of_accepted _ _ _ _ hr]
    exact Or.inr ⟨rfl, rfl⟩

/- A stager changes nothing, or its write is accepted. -/
theorem stage_cases (s : Stager) (t : Tables) :
    s.stage t = (t, none) ∨
    ∃ state message, s.Writes t state ∧
      t.refusesLifecycle s.pod ⟨state, t.stampedGeneration s.pod, message⟩ = false ∧
      s.stage t = ((t.applyLifecycleLocked s.pod state message).1,
        some ⟨state, t.stampedGeneration s.pod, message⟩) := by
  cases s with
  | mark pod state message =>
    refine (apply_cases t pod state message).imp id fun h => ?_
    exact ⟨state, message, rfl, h.2, h.1⟩
  | ready pod =>
    refine (apply_cases t pod .ready "").imp id fun h => ?_
    exact ⟨.ready, "", rfl, h.2, h.1⟩
  | wake pod vmID state message =>
    simp only [stage, setLifecycleStateForWake]
    split
    · refine (apply_cases t pod state message).imp id fun h => ?_
      exact ⟨state, message, rfl, h.2, h.1⟩
    · exact Or.inl rfl
  | lift pod =>
    simp only [stage, liftHibernateFailureLocked]
    cases t.hibernateFailedVMLocked pod.key pod.uid with
    | none => exact Or.inl rfl
    | some v =>
      refine (apply_cases t pod .creating "").imp id fun h => ?_
      exact ⟨.creating, "", rfl, h.2, h.1⟩
  | republish pod =>
    simp only [stage, republishLifecycleOnGenerationBump]
    cases he : t.lifecycleIntent.get pod.key with
    | none => exact Or.inl rfl
    | some e =>
      dsimp only
      split
      next => exact Or.inl rfl
      next hc =>
        refine (apply_cases t pod e.status.state e.status.message).imp id fun h => ?_
        have huid : e.uid = pod.uid := by
          by_contra hne
          exact hc (by simp [hne])
        exact ⟨e.status.state, e.status.message, ⟨e, he, huid, rfl⟩, h.2, h.1⟩

end Stager

/- An accepted write sets the intent and leaves the tracked incarnations alone. -/
theorem accepted_intent {t : Tables} {pod : Pod} {state : LifecycleState} {message : String}
    (h : t.refusesLifecycle pod ⟨state, t.stampedGeneration pod, message⟩ = false) :
    (t.applyLifecycleLocked pod state message).1.lifecycleIntent.get pod.key =
      some ⟨pod.uid, ⟨state, t.stampedGeneration pod, message⟩, none⟩ := by
  rw [applyLifecycleLocked_of_accepted _ _ _ _ h]
  exact GoMap.get_set_self _ _ _

/-! ### What the apiserver does -/

theorem getElem?_snoc {α : Type} {xs : List α} {i : ℕ} {x y : α} (h : xs[i]? = some x) :
    (xs ++ [y])[i]? = some x := by
  rw [List.getElem?_append_left (List.getElem?_eq_some_iff.mp h).1]
  exact h

theorem Pub.arrive_cases (u : UID) (p : Pub) (r : Request) :
    p.arrive u r = (p, false) ∨
    (∃ uid stamp obj, r = .podStatus uid stamp ∧ p.api = some obj ∧ obj.uid = uid ∧
      p.arrive u r =
        ({ p with statusSeen := if uid = u then max p.statusSeen stamp else p.statusSeen }, true)) ∨
    (∃ uid status staging obj, r = .lifecycle uid status staging ∧ p.api = some obj ∧
      obj.uid = uid ∧
      p.arrive u r =
        ({ p with api := some { obj with lifecycle := some status }, landed := some staging },
          true)) := by
  cases hapi : p.api with
  | none => exact Or.inl (by simp only [Pub.arrive, hapi])
  | some obj =>
    cases r with
    | podStatus uid stamp =>
      by_cases huid : obj.uid = uid
      · exact Or.inr (Or.inl ⟨uid, stamp, obj, rfl, rfl, huid, by
          simp only [Pub.arrive, hapi, huid, if_true]⟩)
      · exact Or.inl (by simp only [Pub.arrive, hapi, huid, if_false])
    | lifecycle uid status staging =>
      by_cases huid : obj.uid = uid
      · exact Or.inr (Or.inr ⟨uid, status, staging, obj, rfl, rfl, huid, by
          simp only [Pub.arrive, hapi, huid, if_true]⟩)
      · exact Or.inl (by simp only [Pub.arrive, hapi, huid, if_false])

/-! ### Sample values -/

def calm : PubAnswer := ⟨false, false⟩

def sampleTracked : Tables := Tables.new.trackPodLocked samplePod (some sampleVM)

end VkCocoon
