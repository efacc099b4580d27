import VkCocoon.Node

/-!
# Snapshot requests and their answers

A snapshot is requested by an annotation of the pod and answered by another one.
`updatePod` reads both from the copy it is given: the copy of the caller, in the order
of the apiserver but possibly late, or the tracked copy when a retry is due. The answer
is a patch at the apiserver and is kept nowhere else. The apiserver is the list of the
versions the pod has had, the present one last; other writers change everything but the
answer. The calls of one incarnation run under the lock of its key.
-/

namespace VkCocoon
open Lib Tables

inductive SnapshotState where
  | pushed
  | failed
  | other (text : String)
deriving DecidableEq, Repr

/-- `meta.SnapshotStatus`; `ref` is empty while there is no answer. -/
structure SnapshotStatus where
  ref : String
  state : SnapshotState
  message : String
deriving DecidableEq, Repr

/-- `pendingSnapshotRef` on the annotations it reads. -/
def pendingSnapshotRef (request : String) (status : SnapshotStatus) : String :=
  if request = "" ∨ status.ref = request then "" else request

/-- A version of the pod with the request and the answer; the pod reads them as the source does. -/
structure RequestedPod where
  pod : Pod
  request : String
  status : SnapshotStatus
  pending_eq : pod.pendingSnapshotRef = pendingSnapshotRef request status

namespace RequestedPod

def answer (p : RequestedPod) (status : SnapshotStatus) : RequestedPod :=
  ⟨{ p.pod with pendingSnapshotRef := pendingSnapshotRef p.request status }, p.request, status, rfl⟩

/-- A change by another writer. -/
def edit (p : RequestedPod) (pod : Pod) (request : String) : RequestedPod :=
  ⟨{ pod with
      key := p.pod.key
      uid := p.pod.uid
      pendingSnapshotRef := pendingSnapshotRef request p.status }, request, p.status, rfl⟩

end RequestedPod

/-- A copy that a call works on. `version` is a note; the source does not know it. -/
structure PodCopy where
  pod : Pod
  version : ℕ
deriving DecidableEq, Repr

inductive UpdatePC where
  /-- `UpdatePod`, and its wait for the lock -/
  | receive
  | acquire
  /-- `retryOp`, and its look at what is owed -/
  | tryLock
  | check
  -- updatePod
  | backoff
  | look
  | track
  | takeRetry
  | apply
  -- snapshot
  | begin
  | save
  | push
  | cleanup (err : Option String)
  /-- `answerSnapshot`, with the attempts of its patch so far -/
  | answer (err : Option String) (attempt : ℕ)
  /-- what `applyUpdate` does once the request is answered: hibernate, wake or lift -/
  | rest
  | retryLater
  | unlock
  | done
deriving DecidableEq, Repr

structure UpdateCall where
  copy : PodCopy
  vm : Option VM
  prev : ℕ
  pc : UpdatePC
deriving DecidableEq, Repr

/-- `unsettled` are answers whose patch was given up and may yet take effect. `answeredAt` is a
note: the version that took the answer `pushed` to the present request. -/
structure Requests where
  world : World
  key : Key
  api : List RequestedPod
  trackedVersion : ℕ
  delivered : ℕ
  owner : Option ℕ
  unsettled : List SnapshotStatus
  answeredAt : Option ℕ

namespace Requests

def request (s : Requests) : Option String := s.api.getLast?.map (·.request)

/-- The apiserver accepts an answer. -/
def land (s : Requests) (status : SnapshotStatus) : Requests :=
  match s.api.getLast? with
  | none => s
  | some p =>
    { s with
      api := s.api ++ [p.answer status]
      answeredAt := if status.state = .pushed ∧ status.ref = p.request then some s.api.length
        else s.answeredAt }

def edit (s : Requests) (pod : Pod) (request : String) : Requests :=
  match s.api.getLast? with
  | none => s
  | some p =>
    { s with
      api := s.api ++ [p.edit pod request]
      answeredAt := if request = p.request then s.answeredAt else none }

/-- A pushed answer to `ref` was accepted, and `ref` is requested since. -/
def Answered (s : Requests) (ref : String) : Prop := s.answeredAt.isSome ∧ s.request = some ref

end Requests

/-- `answerSnapshot` -/
def snapshotAnswer (ref : String) : Option String → SnapshotStatus
  | none => ⟨ref, .pushed, ""⟩
  | some err => ⟨ref, .failed, err⟩

namespace UpdateCall
variable (t : UpdateCall)

def ref : String := t.copy.pod.pendingSnapshotRef

def localName (v : VM) : String := "snap-" ++ v.name

def go (pc : UpdatePC) : UpdateCall := { t with pc := pc }

/-- `applyUpdate` up to the request. -/
def applied (w : World) : UpdatePC :=
  let spec := t.copy.pod.spec
  if isMacosSpec spec then
    if t.ref = "" then .rest
    else .answer (some ("macOS guest " ++ spec.vmName ++ " does not support live snapshots")) 0
  else if spec.managed && t.ref != "" && t.vm.isSome && !t.copy.pod.hibernate && w.hasPusher then .begin
  else .rest

/-- Where an attempt of `patchWithRetry` leads. A rejected patch ends `answerSnapshot` without an
error, and so does a cancellation between two attempts. -/
def patched (err : Option String) (attempt : ℕ) (a : Answer) : UpdateCall :=
  t.go (match a.reply with
    | .ok | .nameTaken => .rest
    | .failed _ | .failedAfter _ =>
      if attempt + 1 = lifecyclePatchAttempts then .retryLater
      else if a.cut then .rest else .answer err (attempt + 1))

def step (s : Requests) (i : ℕ) (a : Answer) : Option (Requests × UpdateCall) :=
  let w := s.world
  let pod := t.copy.pod
  match t.pc with
  | .receive =>
    if s.delivered ≤ a.pick then
      (s.api[a.pick]?).map fun p =>
        ({ s with delivered := a.pick }, { t with copy := ⟨p.pod, a.pick⟩, pc := .acquire })
    else none
  | .acquire => if s.owner.isSome then none else some ({ s with owner := some i }, t.go .backoff)
  | .tryLock =>
    if s.owner.isSome then some (s, t.go .done) else some ({ s with owner := some i }, t.go .check)
  | .check =>
    match w.tables.opRetries.get s.key, w.tables.pods.get s.key with
    | some r, some tracked =>
      if r.due ≤ a.now then
        some (s, { t with copy := ⟨tracked, s.trackedVersion⟩, pc := .backoff })
      else some (s, t.go .unlock)
    | _, _ => some (s, t.go .unlock)
  | .backoff => some (s, t.go (if w.tables.resumedOps.has s.key then .unlock else .look))
  | .look =>
    -- a pod that is not tracked, or tracked under another UID, goes to CreatePod
    if w.tables.trackedPodMatches s.key pod.uid then
      some (s, { t with vm := w.tables.vmsByPod.get s.key, pc := .track })
    else some (s, t.go .unlock)
  | .track =>
    match w.tables.trackPodUnlessDeleting pod none with
    | (tables, true) =>
      some ({ s with world := { w with tables := tables }, trackedVersion := t.copy.version },
        t.go .takeRetry)
    | (_, false) => some (s, t.go .unlock)
  | .takeRetry =>
    match w.tables.takeOpRetry s.key with
    | (tables, prev) =>
      some ({ s with world := { w with tables := tables } }, { t with prev := prev, pc := .apply })
  | .apply => some (s, t.go (t.applied w))
  | .begin => some (s, t.go (if lifecycleCreating (w.tables.podNow pod) then .retryLater else .save))
  | .save =>
    t.vm.map fun v =>
      match w.snapshotSave (localName v) v.id a.reply with
      | (w, none) => ({ s with world := w }, t.go .push)
      | (w, some e) =>
        ({ s with world := w }, t.go (.cleanup (some ("save snapshot " ++ localName v ++ ": " ++ e))))
  | .push =>
    t.vm.map fun v =>
      (s, t.go (.cleanup (a.reply.err.map fun e => "push snapshot " ++ localName v ++ ": " ++ e)))
  | .cleanup err =>
    t.vm.map fun v =>
      ({ s with world := w.snapshotRemove (localName v) a.reply }, t.go (.answer err 0))
  | .answer err attempt =>
    let status := snapshotAnswer t.ref err
    match a.reply with
    | .ok | .failedAfter _ => some (s.land status, t.patched err attempt a)
    | .failed _ =>
      some ({ s with unsettled := s.unsettled ++ [status] }, t.patched err attempt a)
    | .nameTaken => some (s, t.patched err attempt a)
  | .rest => some (s, t.go (if a.reply.err.isSome then .retryLater else .unlock))
  | .retryLater =>
    some ({ s with world := w.onTables (·.retryOpLater pod t.prev a.now) }, t.go .unlock)
  | .unlock => some ({ s with owner := none }, t.go .done)
  | .done => none

end UpdateCall

/-- The surroundings: other writers at the apiserver, a patch that takes effect late, and
everything else on the node, which leaves the tracked copy's request and answer alone. -/
inductive RequestEnv where
  | edit (pod : Pod) (request : String)
  | land (n : ℕ)
  | table (op : TableOp)
deriving DecidableEq

/-- What a retry would read from the tracked copy. -/
def Tables.trackedRequest (t : Tables) (key : Key) : Option (Key × String) :=
  (t.pods.get key).map fun pod => (pod.key, pod.pendingSnapshotRef)

section Program
variable {S : Type} [DecidableEq S] (snapshot : LifecycleStatus → S)

def Requests.env (s : Requests) : RequestEnv → Option Requests
  | .edit pod request => some (s.edit pod request)
  | .land n =>
    (s.unsettled[n]?).map fun status => { s.land status with unsettled := s.unsettled.eraseIdx n }
  | .table op =>
    let tables := op.run snapshot s.world.tables
    if tables.trackedRequest s.key = s.world.tables.trackedRequest s.key then
      some { s with world := { s.world with tables := tables } }
    else none

def updates : Program Requests UpdateCall Answer RequestEnv :=
  Program.ofStep (fun _ t => t.pc = .receive || t.pc = .tryLock) (fun s i t a => t.step s i a)
    (Requests.env snapshot)

end Program

abbrev UpdateEvent := PoolEvent UpdateCall Answer RequestEnv

/-- No call is under way, and the tracked copy is a version of the pod. -/
structure Requests.Starts (s : Requests) : Prop where
  tracked : ∃ p, s.api[s.trackedVersion]? = some p ∧
    s.world.tables.pods.get s.key = some p.pod
  keys : ∀ p ∈ s.api, p.pod.key = s.key
  free : s.owner = none
  unsettled : s.unsettled = []
  unanswered : s.answeredAt = none

/-- The step saves or pushes no snapshot for a request that was answered. -/
def NoRepeat (c : Config Requests UpdateCall) : UpdateEvent → Prop
  | .run i _ => ∀ t ∈ c.threads[i]?, t.pc = .save ∨ t.pc = .push → ¬ c.shared.Answered t.ref
  | _ => True

/-- `updatePod` reads the request from no copy that is older than the answer to the present request,
and an answer takes effect while its call tries to patch it, or never. -/
def NotLate (c : Config Requests UpdateCall) : UpdateEvent → Prop
  | .run i _ => ∀ t ∈ c.threads[i]?, t.pc = .look → ∀ n ∈ c.shared.answeredAt, n ≤ t.copy.version
  | .env (.land _) => False
  | _ => True

/-! ### What the versions and the calls agree on -/

/-- From the answer on, every version shows it. -/
def Requests.Shown (s : Requests) : Prop :=
  ∀ n, s.answeredAt = some n → n < s.api.length ∧
    ∀ (m : ℕ) (p : RequestedPod), n ≤ m → s.api[m]? = some p → p.status.ref = p.request

/-- What a copy reads is what its version says. -/
def Requests.Holds (s : Requests) (c : PodCopy) : Prop :=
  c.pod.key = s.key ∧ ∃ p, s.api[c.version]? = some p ∧ c.pod.pendingSnapshotRef = p.pod.pendingSnapshotRef

structure Requests.Sound (s : Requests) : Prop where
  keys : ∀ p ∈ s.api, p.pod.key = s.key
  shown : s.Shown
  tracked : ∀ pod, s.world.tables.pods.get s.key = some pod → s.Holds ⟨pod, s.trackedVersion⟩

namespace UpdatePC

/-- Under the lock. -/
def inBody : UpdatePC → Bool
  | .receive | .acquire | .tryLock | .done => false
  | _ => true

/-- The call has its copy and has not given up. -/
def reads : UpdatePC → Bool
  | .acquire | .backoff | .look | .track | .takeRetry | .apply => true
  | _ => false

/-- The request was read, and no answer was sent yet. -/
def chosen : UpdatePC → Bool
  | .track | .takeRetry | .apply | .begin | .save | .push | .cleanup _ => true
  | _ => false

def asks : UpdatePC → Bool
  | .begin | .save | .push | .cleanup _ | .answer _ _ => true
  | _ => false

def answering : UpdatePC → Bool
  | .answer _ _ => true
  | _ => false

theorem inBody_of_chosen {pc : UpdatePC} (h : pc.chosen = true) : pc.inBody = true := by
  cases pc <;> first | rfl | cases h

theorem inBody_of_answering {pc : UpdatePC} (h : pc.answering = true) : pc.inBody = true := by
  cases pc <;> first | rfl | cases h

end UpdatePC

structure UpdateCall.Sound (s : Requests) (i : ℕ) (t : UpdateCall) : Prop where
  owner : t.pc.inBody = true → s.owner = some i
  copy : t.pc.reads = true → s.Holds t.copy
  asked : t.pc.asks = true → t.ref ≠ ""
  unanswered : t.pc.chosen = true → t.ref ≠ "" → s.answeredAt = none
  -- an attempt before this one may have taken effect
  own : t.pc.answering = true → s.answeredAt.isSome → s.request = some t.ref

variable {s s' : Requests} {t t' : UpdateCall} {i j : ℕ} {c : PodCopy} {pod : Pod}

theorem Requests.Holds.mono (h : s.Holds c) (hkey : s'.key = s.key) (hapi : s.api <+: s'.api) :
    s'.Holds c := by
  obtain ⟨hk, p, hp, hpending⟩ := h
  obtain ⟨more, hmore⟩ := hapi
  have hlt : c.version < s.api.length := (List.getElem?_eq_some_iff.mp hp).1
  refine ⟨hk.trans hkey.symm, p, ?_, hpending⟩
  rw [← hmore, List.getElem?_append_left hlt]
  exact hp

/- A copy that is not older than the answer shows nothing pending. -/
theorem Requests.Holds.not_pending (h : s.Holds c) (hs : s.Shown) {n : ℕ} (hn : s.answeredAt = some n)
    (hle : n ≤ c.version) : c.pod.pendingSnapshotRef = "" := by
  obtain ⟨-, p, hp, hpending⟩ := h
  have href := (hs n hn).2 c.version p hle hp
  rw [hpending, p.pending_eq, pendingSnapshotRef, if_pos (Or.inr href)]

/- A call stands by while another one, or nobody, is under the lock. -/
theorem UpdateCall.Sound.stands_by (h : t.Sound s j) (hkey : s'.key = s.key) (hapi : s.api <+: s'.api)
    (howner : s.owner ≠ some j ∨
      (s'.owner = s.owner ∧ s'.answeredAt = s.answeredAt ∧ s'.request = s.request)) :
    t.Sound s' j := by
  refine ⟨?_, fun hr => (h.copy hr).mono hkey hapi, h.asked, ?_, ?_⟩
  · intro hb
    rcases howner with hno | ⟨ho, -, -⟩
    · exact absurd (h.owner hb) hno
    · rw [ho]
      exact h.owner hb
  · intro hc hne
    rcases howner with hno | ⟨-, ha, -⟩
    · exact absurd (h.owner (UpdatePC.inBody_of_chosen hc)) hno
    · rw [ha]
      exact h.unanswered hc hne
  · intro ha hsome
    rcases howner with hno | ⟨-, han, hreq⟩
    · exact absurd (h.owner (UpdatePC.inBody_of_answering ha)) hno
    · rw [hreq]
      rw [han] at hsome
      exact h.own ha hsome

/-! ### The apiserver -/

theorem Requests.land_frame (s : Requests) (status : SnapshotStatus) :
    (s.land status).key = s.key ∧ (s.land status).world = s.world ∧
      (s.land status).trackedVersion = s.trackedVersion ∧ (s.land status).owner = s.owner ∧
      s.api <+: (s.land status).api ∧ (s.land status).request = s.request := by
  unfold Requests.land
  split
  next => exact ⟨rfl, rfl, rfl, rfl, List.prefix_rfl, rfl⟩
  next p hp =>
    refine ⟨rfl, rfl, rfl, rfl, List.prefix_append _ _, ?_⟩
    simp only [Requests.request, List.getLast?_append, List.getLast?_singleton, Option.some_or,
      Option.map_some, hp]
    rfl

/- A version that is added: an old one, or that one. -/
theorem getElem?_added {api : List RequestedPod} {p q : RequestedPod} {m : ℕ}
    (h : (api ++ [p])[m]? = some q) : (m < api.length ∧ api[m]? = some q) ∨ (m = api.length ∧ q = p) := by
  rcases Program.getElem?_snoc_cases h with hold | ⟨hm, hq⟩
  · exact Or.inl ⟨(List.getElem?_eq_some_iff.mp hold).1, hold⟩
  · exact Or.inr ⟨hm, hq⟩

theorem Requests.request_eq {p : RequestedPod} (h : s.api.getLast? = some p) :
    s.request = some p.request := by
  rw [Requests.request, h]
  rfl

theorem Requests.land_shown (hs : s.Shown) {status : SnapshotStatus}
    (hown : s.answeredAt.isSome → s.request = some status.ref) : (s.land status).Shown := by
  unfold Requests.land
  split
  next => exact hs
  next p hp =>
    have hreq := Requests.request_eq hp
    intro n hn
    simp only at hn
    -- the new version shows the answer to its own request, whichever answer is the noted one
    have hnew : status.ref = p.request ∧ (n = s.api.length ∨ s.answeredAt = some n) := by
      split at hn
      next hpushed => exact ⟨hpushed.2, Or.inl (Option.some.inj hn).symm⟩
      next =>
        have hsome := hown (by rw [hn]; rfl)
        rw [hreq] at hsome
        exact ⟨(Option.some.inj hsome).symm, Or.inr hn⟩
    constructor
    · rw [List.length_append, List.length_singleton]
      rcases hnew.2 with hlen | hold
      · omega
      · have hlt := (hs n hold).1
        omega
    · intro m q hle hq
      rcases getElem?_added hq with ⟨hlt, hold⟩ | ⟨-, rfl⟩
      · rcases hnew.2 with hlen | hnoted
        · omega
        · exact (hs n hnoted).2 m q hle hold
      · exact hnew.1

theorem Requests.land_answered {status : SnapshotStatus}
    (hown : s.answeredAt.isSome → s.request = some status.ref)
    (hsome : (s.land status).answeredAt.isSome) : (s.land status).request = some status.ref := by
  rw [(s.land_frame status).2.2.2.2.2]
  unfold Requests.land at hsome
  split at hsome
  next => exact hown hsome
  next p hp =>
    simp only at hsome
    split at hsome
    next hpushed => rw [Requests.request_eq hp, hpushed.2]
    next => exact hown hsome

theorem Requests.land_keys (hs : ∀ p ∈ s.api, p.pod.key = s.key) (status : SnapshotStatus) :
    ∀ p ∈ (s.land status).api, p.pod.key = s.key := by
  unfold Requests.land
  split
  next => exact hs
  next p hp =>
    intro q hq
    rcases List.mem_append.mp hq with hq | hq
    · exact hs q hq
    · rw [List.mem_singleton.mp hq]
      exact hs p (List.mem_of_getLast? hp)

theorem Requests.Sound.land (hs : s.Sound) {status : SnapshotStatus}
    (hown : s.answeredAt.isSome → s.request = some status.ref) : (s.land status).Sound := by
  obtain ⟨hkey, hworld, hversion, -, hapi, -⟩ := s.land_frame status
  refine ⟨?_, Requests.land_shown hs.shown hown, ?_⟩
  · rw [hkey]
    exact Requests.land_keys hs.keys status
  · intro pod hpod
    rw [hworld, hkey] at hpod
    rw [hversion]
    exact (hs.tracked pod hpod).mono hkey hapi

theorem Requests.edit_frame (s : Requests) (pod : Pod) (request : String) :
    (s.edit pod request).key = s.key ∧ (s.edit pod request).world = s.world ∧
      (s.edit pod request).trackedVersion = s.trackedVersion ∧ (s.edit pod request).owner = s.owner ∧
      s.api <+: (s.edit pod request).api := by
  unfold Requests.edit
  split
  · exact ⟨rfl, rfl, rfl, rfl, List.prefix_rfl⟩
  · exact ⟨rfl, rfl, rfl, rfl, List.prefix_append _ _⟩

/- An edit of the request forgets the answer; any other leaves both. -/
theorem Requests.edit_answered (s : Requests) (pod : Pod) (request : String) :
    (s.edit pod request).answeredAt = none ∨
      ((s.edit pod request).answeredAt = s.answeredAt ∧ (s.edit pod request).request = s.request) := by
  unfold Requests.edit
  split
  next => exact Or.inr ⟨rfl, rfl⟩
  next p hp =>
    by_cases hreq : request = p.request
    · right
      constructor
      · simp only [if_pos hreq]
      · rw [Requests.request_eq hp]
        simp [Requests.request, RequestedPod.edit, hreq]
    · left
      simp only [if_neg hreq]

theorem Requests.edit_shown (hs : s.Shown) (pod : Pod) (request : String) :
    (s.edit pod request).Shown := by
  unfold Requests.edit
  split
  next => exact hs
  next p hp =>
    intro n hn
    simp only at hn
    split at hn
    next hreq =>
      obtain ⟨hlt, hshown⟩ := hs n hn
      refine ⟨by rw [List.length_append, List.length_singleton]; omega, fun m q hle hq => ?_⟩
      rcases getElem?_added hq with ⟨-, hold⟩ | ⟨-, rfl⟩
      · exact hshown m q hle hold
      · have hlast : s.api[s.api.length - 1]? = some p := by
          rw [← List.getLast?_eq_getElem?]
          exact hp
        have href := hshown _ p (by omega) hlast
        simp only [RequestedPod.edit]
        rw [href, hreq]
    next => cases hn

theorem Requests.Sound.edit (hs : s.Sound) (pod : Pod) (request : String) :
    (s.edit pod request).Sound := by
  obtain ⟨hkey, hworld, hversion, -, hapi⟩ := s.edit_frame pod request
  refine ⟨?_, Requests.edit_shown hs.shown pod request, ?_⟩
  · rw [hkey]
    unfold Requests.edit
    split
    next => exact hs.keys
    next p hp =>
      intro q hq
      rcases List.mem_append.mp hq with hq | hq
      · exact hs.keys q hq
      · rw [List.mem_singleton.mp hq]
        exact hs.keys p (List.mem_of_getLast? hp)
  · intro tracked htracked
    rw [hworld, hkey] at htracked
    rw [hversion]
    exact (hs.tracked tracked htracked).mono hkey hapi

theorem UpdateCall.Sound.edit (h : t.Sound s j) (pod : Pod) (request : String) :
    t.Sound (s.edit pod request) j := by
  obtain ⟨hkey, -, -, howner, hapi⟩ := s.edit_frame pod request
  rcases s.edit_answered pod request with hnone | ⟨hsame, hreq⟩
  · refine ⟨fun hb => by rw [howner]; exact h.owner hb, fun hr => (h.copy hr).mono hkey hapi, h.asked,
      fun _ _ => hnone, fun _ hsome => ?_⟩
    rw [hnone] at hsome
    cases hsome
  · exact h.stands_by hkey hapi (Or.inr ⟨howner, hsame, hreq⟩)

/-! ### The steps of a call -/

/- The parts of the state that only the world changes leave a call as it is. -/
theorem Requests.Sound.of_world (hs : s.Sound) {w : World}
    (hpods : w.tables.trackedRequest s.key = s.world.tables.trackedRequest s.key) :
    ({ s with world := w } : Requests).Sound := by
  refine ⟨hs.keys, hs.shown, fun pod hpod => ?_⟩
  simp only at hpod
  rw [Tables.trackedRequest, hpod, Option.map_some] at hpods
  obtain ⟨tracked, htracked, heq⟩ := Option.map_eq_some_iff.mp hpods.symm
  obtain ⟨hkey, hpending⟩ := Prod.mk.inj heq
  obtain ⟨hk, p, hp, href⟩ := hs.tracked tracked htracked
  exact ⟨hkey ▸ hk, p, hp, hpending ▸ href⟩

namespace UpdateCall.Sound

/- A call that reads nothing and asks for nothing. -/
theorem plain (howner : s.owner = some i) (hr : t.pc.reads = false) (ha : t.pc.asks = false)
    (hc : t.pc.chosen = false) (han : t.pc.answering = false) : t.Sound s i := by
  refine ⟨fun _ => howner, fun h => ?_, fun h => ?_, fun h => ?_, fun h => ?_⟩
  · rw [hr] at h
    cases h
  · rw [ha] at h
    cases h
  · rw [hc] at h
    cases h
  · rw [han] at h
    cases h

theorem outside (hb : t.pc.inBody = false) (hr : t.pc.reads = true → s.Holds t.copy)
    (ha : t.pc.asks = false) : t.Sound s i := by
  have hno : t.pc.inBody ≠ true := by rw [hb]; exact Bool.false_ne_true
  refine ⟨fun h => absurd h hno, hr, fun h => ?_, fun h => ?_, fun h => ?_⟩
  · rw [ha] at h
    cases h
  · exact absurd (UpdatePC.inBody_of_chosen h) hno
  · exact absurd (UpdatePC.inBody_of_answering h) hno

theorem reading (howner : s.owner = some i) (hcopy : s.Holds t.copy)
    (hun : t.pc.chosen = true → t.ref ≠ "" → s.answeredAt = none) (ha : t.pc.asks = false)
    (han : t.pc.answering = false) : t.Sound s i := by
  refine ⟨fun _ => howner, fun _ => hcopy, fun h => ?_, hun, fun h => ?_⟩
  · rw [ha] at h
    cases h
  · rw [han] at h
    cases h

theorem asking (howner : s.owner = some i) (href : t.ref ≠ "") (hnone : s.answeredAt = none)
    (hr : t.pc.reads = false) : t.Sound s i := by
  refine ⟨fun _ => howner, fun h => ?_, fun _ => href, fun _ _ => hnone, fun _ h => ?_⟩
  · rw [hr] at h
    cases h
  · rw [hnone] at h
    cases h

end UpdateCall.Sound

/- Where `applyUpdate` goes: to the request that its copy shows, or past it. -/
theorem UpdateCall.applied_cases (t : UpdateCall) (w : World) :
    t.applied w = .rest ∨
      (t.ref ≠ "" ∧ (t.applied w = .begin ∨ ∃ err, t.applied w = .answer (some err) 0)) := by
  unfold UpdateCall.applied
  dsimp only
  split
  · split
    next => exact Or.inl rfl
    next href => exact Or.inr ⟨href, Or.inr ⟨_, rfl⟩⟩
  · split
    next hcond =>
      simp only [Bool.and_eq_true, bne_iff_ne] at hcond
      exact Or.inr ⟨hcond.1.1.1.2, Or.inl rfl⟩
    next => exact Or.inl rfl

theorem UpdateCall.patched_cases (t : UpdateCall) (err : Option String) (attempt : ℕ) (a : Answer) :
    ∃ pc, t.patched err attempt a = t.go pc ∧
      (pc = .rest ∨ pc = .retryLater ∨ pc = .answer err (attempt + 1)) := by
  refine ⟨_, rfl, ?_⟩
  cases a.reply with
  | ok => exact Or.inl rfl
  | nameTaken => exact Or.inl rfl
  | failed e | failedAfter e =>
    dsimp only
    split
    · exact Or.inr (Or.inl rfl)
    · split
      · exact Or.inl rfl
      · exact Or.inr (Or.inr rfl)

/- After an attempt of the patch the call goes on, or tries again. -/
theorem UpdateCall.Sound.patched {err : Option String} {attempt : ℕ} {a : Answer}
    (howner : s.owner = some i) (href : t.ref ≠ "")
    (hown : s.answeredAt.isSome → s.request = some t.ref) : (t.patched err attempt a).Sound s i := by
  obtain ⟨pc, hpc, hcases⟩ := t.patched_cases err attempt a
  rw [hpc]
  rcases hcases with rfl | rfl | rfl
  · exact .plain howner rfl rfl rfl rfl
  · exact .plain howner rfl rfl rfl rfl
  · refine ⟨fun _ => howner, fun h => ?_, fun _ => href, fun h => ?_, fun _ => hown⟩
    · exact absurd h (by simp [UpdateCall.go, UpdatePC.reads])
    · exact absurd h (by simp [UpdateCall.go, UpdatePC.chosen])

theorem takeOpRetry_trackedRequest (tables : Tables) (key key' : Key) :
    (tables.takeOpRetry key).1.trackedRequest key' = tables.trackedRequest key' := rfl

theorem retryOpLater_trackedRequest (tables : Tables) (pod : Pod) (prev now : ℕ) (key : Key) :
    (tables.retryOpLater pod prev now).trackedRequest key = tables.trackedRequest key := by
  unfold Tables.retryOpLater
  dsimp only
  split <;> rfl

/- A step that leaves the state as it is leaves the others as they are. -/
theorem Requests.Sound.stays (hs : s.Sound) (ht : t'.Sound s i) :
    s.Sound ∧ t'.Sound s i ∧ ∀ (j : ℕ) (u : UpdateCall), j ≠ i → u.Sound s j → u.Sound s j :=
  ⟨hs, ht, fun _ _ _ hu => hu⟩

namespace UpdateCall.Sound

/- Under the lock nobody else is, so the others only wait. -/
theorem others (ht : t.Sound s i) (hb : t.pc.inBody = true) (hkey : s'.key = s.key)
    (hapi : s.api <+: s'.api) (j : ℕ) (u : UpdateCall) (hj : j ≠ i) (hu : u.Sound s j) :
    u.Sound s' j := by
  refine hu.stands_by hkey hapi (Or.inl ?_)
  rw [ht.owner hb]
  exact fun he => hj (Option.some.inj he).symm

/- While the lock is free nobody is in its body, so whoever takes it disturbs no one. -/
theorem taken (ht : t.Sound s i) (hfree : s.owner.isSome = false) (j : ℕ) :
    t.Sound { s with owner := some j } i := by
  have hnone : s.owner = none := by simpa using hfree
  refine ht.stands_by rfl List.prefix_rfl (Or.inl ?_)
  rw [hnone]
  exact fun he => by cases he

theorem asking_unanswered (ht : t.Sound s i) (ha : t.pc.asks = true) (hc : t.pc.chosen = true) :
    s.owner = some i ∧ t.ref ≠ "" ∧ s.answeredAt = none :=
  ⟨ht.owner (UpdatePC.inBody_of_chosen hc), ht.asked ha, ht.unanswered hc (ht.asked ha)⟩

/- The answer is taken: by the apiserver it is the last version, by the call an attempt. -/
theorem landed {err : Option String} {attempt : ℕ} (ht : t.Sound s i) (hs : s.Sound)
    (hpc : t.pc = .answer err attempt) (a : Answer) :
    (s.land (snapshotAnswer t.ref err)).Sound ∧
      (t.patched err attempt a).Sound (s.land (snapshotAnswer t.ref err)) i ∧
      ∀ (j : ℕ) (u : UpdateCall), j ≠ i → u.Sound s j → u.Sound (s.land (snapshotAnswer t.ref err)) j := by
  have hstatus : (snapshotAnswer t.ref err).ref = t.ref := by cases err <;> rfl
  have hown : s.answeredAt.isSome → s.request = some (snapshotAnswer t.ref err).ref := by
    rw [hstatus]
    exact ht.own (by rw [hpc]; rfl)
  have howner := ht.owner (by rw [hpc]; rfl)
  obtain ⟨hkey, -, -, howner', hapi, -⟩ := s.land_frame (snapshotAnswer t.ref err)
  refine ⟨hs.land hown, .patched (howner'.trans howner) (ht.asked (by rw [hpc]; rfl)) ?_,
    ht.others (by rw [hpc]; rfl) hkey hapi⟩
  intro hsome
  have hreq := Requests.land_answered hown hsome
  rw [hstatus] at hreq
  exact hreq

end UpdateCall.Sound

/-- What one step of a call keeps: what the state says, its own condition and that of the others. -/
theorem UpdateCall.step_sound {a : Answer} (hs : s.Sound) (ht : t.Sound s i)
    (hlate : t.pc = .look → ∀ n ∈ s.answeredAt, n ≤ t.copy.version)
    (h : t.step s i a = some (s', t')) :
    s'.Sound ∧ t'.Sound s' i ∧ ∀ (j : ℕ) (u : UpdateCall), j ≠ i → u.Sound s j → u.Sound s' j := by
  unfold UpdateCall.step at h
  cases hpc : t.pc with
  | receive =>
    simp only [hpc] at h
    split at h
    next =>
      obtain ⟨p, hp, heq⟩ := Option.map_eq_some_iff.mp h
      cases heq
      refine ⟨⟨hs.keys, hs.shown, hs.tracked⟩, .outside rfl (fun _ => ?_) rfl, fun j u _ hu => ?_⟩
      · exact ⟨hs.keys p (List.mem_of_getElem? hp), p, hp, rfl⟩
      · exact hu.stands_by rfl List.prefix_rfl (Or.inr ⟨rfl, rfl, rfl⟩)
    next => cases h
  | acquire =>
    simp only [hpc] at h
    split at h
    next => cases h
    next hfree =>
      cases h
      have hcopy := ht.copy (by rw [hpc]; rfl)
      exact ⟨⟨hs.keys, hs.shown, hs.tracked⟩, .reading rfl hcopy (fun hc => by cases hc) rfl rfl,
        fun _ _ _ hu => hu.taken (Bool.eq_false_iff.mpr hfree) i⟩
  | tryLock =>
    simp only [hpc] at h
    split at h
    next =>
      cases h
      exact hs.stays (.outside rfl (fun hr => by cases hr) rfl)
    next hfree =>
      cases h
      exact ⟨⟨hs.keys, hs.shown, hs.tracked⟩, .plain rfl rfl rfl rfl rfl,
        fun _ _ _ hu => hu.taken (Bool.eq_false_iff.mpr hfree) i⟩
  | check =>
    have howner := ht.owner (by rw [hpc]; rfl)
    simp only [hpc] at h
    split at h
    next r tracked _ htracked =>
      split at h
      next =>
        cases h
        exact hs.stays (.reading howner (hs.tracked tracked htracked) (fun hc => by cases hc) rfl rfl)
      next =>
        cases h
        exact hs.stays (.plain howner rfl rfl rfl rfl)
    next =>
      cases h
      exact hs.stays (.plain howner rfl rfl rfl rfl)
  | backoff =>
    have howner := ht.owner (by rw [hpc]; rfl)
    have hcopy := ht.copy (by rw [hpc]; rfl)
    simp only [hpc] at h
    cases h
    refine hs.stays ?_
    split
    · exact .plain howner rfl rfl rfl rfl
    · exact .reading howner hcopy (fun hc => by cases hc) rfl rfl
  | look =>
    have howner := ht.owner (by rw [hpc]; rfl)
    have hcopy := ht.copy (by rw [hpc]; rfl)
    simp only [hpc] at h
    split at h
    next =>
      cases h
      refine hs.stays (.reading howner hcopy (fun _ href => ?_) rfl rfl)
      cases han : s.answeredAt with
      | none => rfl
      | some n => exact absurd (hcopy.not_pending hs.shown han (hlate hpc n han)) href
    next =>
      cases h
      exact hs.stays (.plain howner rfl rfl rfl rfl)
  | track =>
    have howner := ht.owner (by rw [hpc]; rfl)
    have hcopy := ht.copy (by rw [hpc]; rfl)
    have hun := ht.unanswered (by rw [hpc]; rfl)
    simp only [hpc, Tables.trackPodUnlessDeleting] at h
    by_cases hdel : s.world.tables.deletingLocked t.copy.pod.key = true
    · rw [if_pos hdel] at h
      cases h
      exact hs.stays (.plain howner rfl rfl rfl rfl)
    · rw [if_neg hdel] at h
      cases h
      refine ⟨⟨hs.keys, hs.shown, fun pod hpod => ?_⟩, .reading howner hcopy (fun _ => hun) rfl rfl,
        ht.others (by rw [hpc]; rfl) rfl List.prefix_rfl⟩
      obtain ⟨l, hl⟩ := s.world.tables.trackPodLocked_pods t.copy.pod none
      simp only [hl, ← hcopy.1, if_true] at hpod
      cases hpod
      exact hcopy
  | takeRetry =>
    have howner := ht.owner (by rw [hpc]; rfl)
    have hcopy := ht.copy (by rw [hpc]; rfl)
    have hun := ht.unanswered (by rw [hpc]; rfl)
    simp only [hpc] at h
    cases h
    exact ⟨hs.of_world (takeOpRetry_trackedRequest _ _ _), .reading howner hcopy (fun _ => hun) rfl rfl,
      ht.others (by rw [hpc]; rfl) rfl List.prefix_rfl⟩
  | apply =>
    have howner := ht.owner (by rw [hpc]; rfl)
    have hun := ht.unanswered (by rw [hpc]; rfl)
    simp only [hpc] at h
    cases h
    refine hs.stays ?_
    rcases t.applied_cases s.world with hrest | ⟨href, hbegin | ⟨err, hans⟩⟩
    · rw [hrest]
      exact .plain howner rfl rfl rfl rfl
    · rw [hbegin]
      exact .asking howner href (hun href) rfl
    · rw [hans]
      exact .asking howner href (hun href) rfl
  | begin =>
    obtain ⟨howner, href, hnone⟩ := ht.asking_unanswered (by rw [hpc]; rfl) (by rw [hpc]; rfl)
    simp only [hpc] at h
    cases h
    refine hs.stays ?_
    split
    · exact .plain howner rfl rfl rfl rfl
    · exact .asking howner href hnone rfl
  | save =>
    obtain ⟨howner, href, hnone⟩ := ht.asking_unanswered (by rw [hpc]; rfl) (by rw [hpc]; rfl)
    simp only [hpc] at h
    obtain ⟨v, -, heq⟩ := Option.map_eq_some_iff.mp h
    have htables := s.world.snapshotSave_tables v.id (UpdateCall.localName v) a.reply
    cases hsave : s.world.snapshotSave (UpdateCall.localName v) v.id a.reply with
    | mk w err =>
      rw [hsave] at heq htables
      cases err <;> cases heq <;>
        exact ⟨hs.of_world (congrArg (Tables.trackedRequest · s.key) htables), .asking howner href hnone rfl,
          ht.others (by rw [hpc]; rfl) rfl List.prefix_rfl⟩
  | push =>
    obtain ⟨howner, href, hnone⟩ := ht.asking_unanswered (by rw [hpc]; rfl) (by rw [hpc]; rfl)
    simp only [hpc] at h
    obtain ⟨v, -, heq⟩ := Option.map_eq_some_iff.mp h
    cases heq
    exact hs.stays (.asking howner href hnone rfl)
  | cleanup err =>
    obtain ⟨howner, href, hnone⟩ := ht.asking_unanswered (by rw [hpc]; rfl) (by rw [hpc]; rfl)
    simp only [hpc] at h
    obtain ⟨v, -, heq⟩ := Option.map_eq_some_iff.mp h
    cases heq
    have htables := Delete.snapshotRemove_tables s.world (UpdateCall.localName v) a.reply
    exact ⟨hs.of_world (congrArg (Tables.trackedRequest · s.key) htables), .asking howner href hnone rfl,
      ht.others (by rw [hpc]; rfl) rfl List.prefix_rfl⟩
  | answer err attempt =>
    have howner := ht.owner (by rw [hpc]; rfl)
    have href := ht.asked (by rw [hpc]; rfl)
    have hown := ht.own (by rw [hpc]; rfl)
    simp only [hpc] at h
    split at h
    · cases h
      exact ht.landed hs hpc a
    · cases h
      exact ht.landed hs hpc a
    · cases h
      exact ⟨⟨hs.keys, hs.shown, hs.tracked⟩, .patched howner href hown,
        ht.others (by rw [hpc]; rfl) rfl List.prefix_rfl⟩
    · cases h
      exact hs.stays (.patched howner href hown)
  | rest =>
    have howner := ht.owner (by rw [hpc]; rfl)
    simp only [hpc] at h
    cases h
    refine hs.stays ?_
    split <;> exact .plain howner rfl rfl rfl rfl
  | retryLater =>
    have howner := ht.owner (by rw [hpc]; rfl)
    simp only [hpc] at h
    cases h
    exact ⟨hs.of_world (retryOpLater_trackedRequest _ _ _ _ _), .plain howner rfl rfl rfl rfl,
      ht.others (by rw [hpc]; rfl) rfl List.prefix_rfl⟩
  | unlock =>
    simp only [hpc] at h
    cases h
    exact ⟨⟨hs.keys, hs.shown, hs.tracked⟩, .outside rfl (fun hr => by cases hr) rfl,
      ht.others (by rw [hpc]; rfl) rfl List.prefix_rfl⟩
  | done =>
    rw [hpc] at h
    cases h

/-! ### Whole runs -/

section Runs
variable {S : Type} [DecidableEq S] (snapshot : LifecycleStatus → S)

theorem next_sound (c : Config Requests UpdateCall) (e : UpdateEvent) (c' : Config Requests UpdateCall)
    (hc : Program.Stable Requests.Sound (fun s i t => UpdateCall.Sound s i t) c) (hg : NotLate c e)
    (h : (updates snapshot).next c e = some c') :
    Program.Stable Requests.Sound (fun s i t => UpdateCall.Sound s i t) c' := by
  refine (updates snapshot).next_stable (G := NotLate) ?_ ?_ ?_ c e c' hc hg h
  · intro c t _ _ hentry
    have hpc : t.pc = .receive ∨ t.pc = .tryLock := by simpa [updates, Program.ofStep] using hentry
    rcases hpc with hpc | hpc <;>
      exact .outside (by rw [hpc]; rfl) (fun hr => by rw [hpc] at hr; cases hr) (by rw [hpc]; rfl)
  · intro c i t a s' t' new hc hg ht hs
    obtain ⟨⟨s₁, t₁⟩, hstep, heq⟩ := Option.map_eq_some_iff.mp hs
    cases heq
    obtain ⟨hsound, hown, hothers⟩ :=
      UpdateCall.step_sound hc.1 (hc.2 i t ht) (fun hpc => hg t ht hpc) hstep
    exact ⟨hsound, hown, fun j u hj hu => hothers j u hj (hc.2 j u hu), fun j u _ hu => by cases hu⟩
  · intro c o s' hc hg hs
    cases o with
    | edit pod request =>
      cases hs
      exact ⟨hc.1.edit pod request, fun j u hu => (hc.2 j u hu).edit pod request⟩
    | land n => exact hg.elim
    | table op =>
      simp only [updates, Program.ofStep, Requests.env] at hs
      split at hs
      next hkeep =>
        cases hs
        refine ⟨hc.1.of_world hkeep, fun j u hu => ?_⟩
        exact (hc.2 j u hu).stands_by rfl List.prefix_rfl (Or.inr ⟨rfl, rfl, rfl⟩)
      next => cases hs

/- A call that saves or pushes has read its request when no answer to the present one was there. -/
theorem noRepeat_of_sound (c : Config Requests UpdateCall) (e : UpdateEvent)
    (hc : Program.Stable Requests.Sound (fun s i t => UpdateCall.Sound s i t) c) : NoRepeat c e := by
  cases e with
  | start t => trivial
  | env o => trivial
  | run i a =>
    intro t ht hpc hanswered
    have hsound := hc.2 i t ht
    have hchosen : t.pc.chosen = true ∧ t.pc.asks = true := by
      rcases hpc with hpc | hpc <;> rw [hpc] <;> exact ⟨rfl, rfl⟩
    have hnone := hsound.unanswered hchosen.1 (hsound.asked hchosen.2)
    have hsome := hanswered.1
    rw [hnone] at hsome
    cases hsome

/-- In every run in which no call reads the request from a copy that is older than the answer, and
no answer takes effect after it was given up, an answered request is not executed again. -/
theorem answered_request_not_repeated (s : Requests) (hs : s.Starts) (es : List UpdateEvent)
    (hlate : (updates snapshot).machine.Guarded NotLate ⟨s, []⟩ es) :
    (updates snapshot).machine.Guarded NoRepeat ⟨s, []⟩ es := by
  have hstart : Program.Stable Requests.Sound (fun s i t => UpdateCall.Sound s i t)
      (⟨s, []⟩ : Config Requests UpdateCall) := by
    refine ⟨⟨hs.keys, fun n hn => ?_, fun pod hpod => ?_⟩, fun i t ht => by cases ht⟩
    · rw [hs.unanswered] at hn
      cases hn
    · obtain ⟨p, hp, htracked⟩ := hs.tracked
      rw [htracked] at hpod
      cases hpod
      exact ⟨hs.keys p (List.mem_of_getElem? hp), p, hp, rfl⟩
  exact (updates snapshot).machine.guarded_of_invariant (next_sound snapshot)
    (fun c e hc _ => noRepeat_of_sound c e hc) hstart hlate

end Runs

instance (s : Requests) (ref : String) : Decidable (s.Answered ref) :=
  inferInstanceAs (Decidable (s.answeredAt.isSome ∧ s.request = some ref))

instance (c : Config Requests UpdateCall) : (e : UpdateEvent) → Decidable (NoRepeat c e)
  | .run i _ => inferInstanceAs (Decidable
      (∀ t ∈ c.threads[i]?, t.pc = .save ∨ t.pc = .push → ¬ c.shared.Answered t.ref))
  | .start _ | .env _ => .isTrue trivial

instance (c : Config Requests UpdateCall) : (e : UpdateEvent) → Decidable (NotLate c e)
  | .run i _ => inferInstanceAs (Decidable
      (∀ t ∈ c.threads[i]?, t.pc = .look → ∀ n ∈ c.shared.answeredAt, n ≤ t.copy.version))
  | .env (.land _) => inferInstanceAs (Decidable False)
  | .start _ | .env (.edit _ _) | .env (.table _) => .isTrue trivial

/- A ready pod whose VM runs, with a request that nobody has answered. -/
def requestedPod : RequestedPod :=
  ⟨{ samplePod with
      lifecycle := some ⟨.ready, 3, ""⟩
      pendingSnapshotRef := "user-snapshots/u1/s1" },
    "user-snapshots/u1/s1", ⟨"", .other "", ""⟩, by decide⟩

def requestedState : Requests where
  world := { sampleWorld with tables := (Tables.new.trackPodLocked requestedPod.pod (some sampleVM)) }
  key := "ns/a"
  api := [requestedPod]
  trackedVersion := 0
  delivered := 0
  owner := none
  unsettled := []
  answeredAt := none

theorem requestedState_starts : requestedState.Starts :=
  ⟨⟨requestedPod, rfl, by decide⟩, by decide, rfl, rfl, rfl⟩

/-- `UpdatePod` of version `n` by thread `i`, up to the save. -/
def updateUpToSave (i n : ℕ) : List UpdateEvent :=
  .start ⟨⟨samplePod, 0⟩, none, 0, .receive⟩ :: .run i ⟨.ok, n, 0, false, false⟩ ::
    List.replicate 7 (.run i ⟨.ok, 0, 0, false, false⟩)

/- The pod is changed while its snapshot is saved, and the answer is accepted after that. -/
def savedAndAnswered : List UpdateEvent :=
  updateUpToSave 0 0 ++ [.env (.edit requestedPod.pod "user-snapshots/u1/s1")] ++
    List.replicate 6 (.run 0 ⟨.ok, 0, 0, false, false⟩)

/- The next copy carries the answer. -/
theorem answered_request_seen :
    (updates (id : LifecycleStatus → LifecycleStatus)).machine.Guarded NoRepeat ⟨requestedState, []⟩
      (savedAndAnswered ++ updateUpToSave 1 2) :=
  answered_request_not_repeated id requestedState requestedState_starts _ (by decide +kernel)

/- The next copy is that of the change, which the answer has overtaken: its request is saved again. -/
theorem answered_request_repeated :
    ¬ ∀ (s : Requests) (es : List UpdateEvent), s.Starts →
      (updates (id : LifecycleStatus → LifecycleStatus)).machine.Guarded NoRepeat ⟨s, []⟩ es := by
  intro h
  have hrun := h requestedState (savedAndAnswered ++ updateUpToSave 1 1 ++
    [.run 1 ⟨.ok, 0, 0, false, false⟩]) requestedState_starts
  exact absurd hrun (by decide +kernel)

end VkCocoon
