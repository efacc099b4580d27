import VkCocoon.PodLock

/-!
# Updates that are owed

An update that fails is tried again by the lifecycle reconciler: `retryOpLater` enters a
delay for the pod, `retryDueOps` hands the pods whose delay is over to `retryOp`, and the
attempt takes the entry with it. The delay doubles from one failure to the next. The
entries are kept by pod key and not by incarnation, other background operations enter
failures of their own, and two attempts on one pod may overlap: the mutex they hold is the
one `podLock` gave them, and an untracked pod gets another. `retryOp` gives up where the
mutex is held.

`Ledger` says what the table is for: it is told of the attempts and the failures and
counts, for each attempt, the failures in a row that led to it.
-/

namespace VkCocoon
open Lib Tables

/-! ### What is owed, from what happened -/

/-- A failure that no attempt has followed yet. -/
structure Debt where
  failures : ℕ
  failedAt : ℕ
deriving DecidableEq, Repr

inductive RetryEvent where
  /-- call `i` begins an attempt -/
  | attempt (i : ℕ) (key : Key)
  /-- the attempt of call `i` failed and its pod is tracked -/
  | failed (i : ℕ) (key : Key) (now : ℕ)
  /-- another background operation on a tracked pod failed -/
  | background (key : Key) (now : ℕ)
  | untracked (key : Key)
deriving DecidableEq, Repr

/-- `before` has the failures in a row that led to the attempt of a call. -/
structure Ledger where
  debts : GoMap Key Debt
  before : GoMap ℕ ℕ

namespace Ledger

def failuresOf (l : Ledger) (key : Key) : ℕ := ((l.debts.get key).map (·.failures)).getD 0

def failuresBefore (l : Ledger) (i : ℕ) : ℕ := (l.before.get i).getD 0

def note (l : Ledger) : RetryEvent → Ledger
  | .attempt i key => ⟨l.debts.del key, l.before.set i (l.failuresOf key)⟩
  | .failed i key now => { l with debts := l.debts.set key ⟨l.failuresBefore i + 1, now⟩ }
  | .background key now => { l with debts := l.debts.set key ⟨1, now⟩ }
  | .untracked key => { l with debts := l.debts.del key }

def of (log : List RetryEvent) : Ledger := log.foldl note ⟨.empty, .empty⟩

theorem of_append (log events : List RetryEvent) : of (log ++ events) = events.foldl note (of log) := by
  simp only [of, List.foldl_append]

end Ledger

/-- The delay after so many failures in a row, in seconds. -/
def retryBackoff (failures : ℕ) : ℕ :=
  if failures = 0 then 0 else min (opRetryBaseDelay * 2 ^ (failures - 1)) opRetryMaxDelay

def Debt.due (d : Debt) : ℕ := d.failedAt + retryBackoff d.failures

def Debt.entry (d : Debt) : OpRetry := ⟨retryBackoff d.failures, d.due⟩

theorem retryBackoff_zero : retryBackoff 0 = 0 := by simp [retryBackoff]

theorem retryBackoff_of_pos (n : ℕ) :
    retryBackoff (n + 1) = min (opRetryBaseDelay * 2 ^ n) opRetryMaxDelay := by
  simp [retryBackoff]

/-- The delay `retryOpLater` computes from the one before. -/
theorem retryBackoff_succ (n : ℕ) :
    (if min (retryBackoff n * 2) opRetryMaxDelay = 0 then opRetryBaseDelay
      else min (retryBackoff n * 2) opRetryMaxDelay) = retryBackoff (n + 1) := by
  cases n with
  | zero => simp [retryBackoff, opRetryBaseDelay, opRetryMaxDelay]
  | succ n =>
    have hpos : 1 ≤ 2 ^ n := Nat.one_le_two_pow
    have hpow : 2 ^ (n + 1) = 2 ^ n * 2 := Nat.pow_succ 2 n
    simp only [retryBackoff_of_pos, opRetryBaseDelay, opRetryMaxDelay, hpow]
    split <;> omega

/-! ### The calls -/

/-- A call that runs its body under the mutex of its pod. -/
inductive LockedCall where
  | updatePod (pod : Pod)
  | deletePod (key : Key)
  | retryOp (key : Key)
deriving DecidableEq

namespace LockedCall

def key : LockedCall → Key
  | .updatePod pod => pod.key
  | .deletePod key | .retryOp key => key

def call : LockedCall → PodLock.Call
  | .updatePod _ => .updatePod
  | .deletePod _ => .deletePod
  | .retryOp _ => .retryOp

end LockedCall

/-- Where `updatePod` is. -/
inductive RetryUpdatePC where
  | enter (pod : Pod)
  | look (pod : Pod)
  | detach (pod : Pod) (uid : UID) (v : Option VM)
  /-- in `CreatePod`, whose sections are those of the surroundings -/
  | create
  | track (pod : Pod)
  | takeRetry (pod : Pod)
  | apply (pod : Pod) (prev : ℕ)
  | retryLater (pod : Pod) (prev : ℕ)
deriving DecidableEq

inductive LockedPC where
  /-- before `p.podLock(key)` -/
  | fetch
  /-- at `l.Lock()`, or at `l.TryLock()` for `retryOp` -/
  | acquire (l : ℕ)
  /-- `retryOp` under the lock, before it reads what is owed -/
  | check (l : ℕ)
  | update (l : ℕ) (pc : RetryUpdatePC)
  /-- in `deletePod`, whose sections are those of the surroundings -/
  | delete (l : ℕ)
  /-- before the deferred `l.Unlock()` -/
  | unlock (l : ℕ)
  | done
deriving DecidableEq

inductive RetryPC where
  /-- `retryDueOps`, and the keys it has yet to hand to `retryOp` -/
  | tick
  | spawn (keys : List Key)
  | locked (x : LockedCall) (pc : LockedPC)
deriving DecidableEq

/-- `log` is a note; the source does not have it. -/
structure RetryState extends PodLock.State where
  clock : ℕ
  closed : Bool
  log : List RetryEvent

/-- What a step is told: the time, whether `assertPodSnapshotCompatibility` refuses the pod, the
answer of `hasWakeSource` (`none` for an error), and whether `applyUpdate` fails. -/
structure RetryAnswer where
  now : ℕ
  refused : Bool
  source : Option Bool
  fails : Bool
deriving DecidableEq

/-- The keys `retryDueOps` collects. -/
def Tables.dueOps (t : Tables) (now : ℕ) : List Key :=
  (t.opRetries.picks fun _ r => decide (r.due ≤ now)).map (·.1)

namespace RetryState
variable (s : RetryState)

def on (tables : Tables) (events : List RetryEvent) : RetryState :=
  { s with tables := tables, log := s.log ++ events }

/-- The notes on a section that may untrack a pod. -/
def dropped (op : TableOp) : List RetryEvent :=
  (op.untracks s.tables).toList.map .untracked

/-- `updatePod` of call `i`; it has returned where no point is left. -/
def updatePod (i : ℕ) (pc : RetryUpdatePC) (a : RetryAnswer) : RetryState × Option RetryUpdatePC :=
  match pc with
  | .enter pod =>
    (s, if a.refused || s.tables.resumedOps.has pod.key then none else some (.look pod))
  | .look pod =>
    match s.tables.pods.get pod.key with
    | none =>
      if (s.tables.vmsByPod.get pod.key).isNone && !pod.hibernate then
        match a.source with
        | none => (s, none)
        | some false => (s, some .create)
        | some true => (s, some (.track pod))
      else (s, some (.track pod))
    | some tracked =>
      (s, some (if tracked.uid = pod.uid then .track pod
        else .detach pod tracked.uid (s.tables.vmsByPod.get pod.key)))
  | .detach pod uid v =>
    match s.tables.detachIncarnation pod.key uid v with
    | (tables, detached) =>
      (s.on tables (s.dropped (.detachIncarnation pod.key uid v)), if detached then some .create else none)
  | .create => (s, none)
  | .track pod =>
    match s.tables.trackPodUnlessDeleting pod none with
    | (tables, tracked) => (s.on tables [], if tracked then some (.takeRetry pod) else none)
  | .takeRetry pod =>
    match s.tables.takeOpRetry pod.key with
    | (tables, prev) => (s.on tables [.attempt i pod.key], some (.apply pod prev))
  | .apply pod prev => (s, if a.fails then some (.retryLater pod prev) else none)
  | .retryLater pod prev =>
    (s.on (s.tables.retryOpLater pod prev a.now)
      (if s.tables.trackedPodMatches pod.key pod.uid then [.failed i pod.key a.now] else []), none)

/-- Where a call goes once it has the lock. -/
def begin (x : LockedCall) (l : ℕ) : LockedPC :=
  match x with
  | .updatePod pod => .update l (.enter pod)
  | .deletePod _ => .delete l
  | .retryOp _ => .check l

def locked (i : ℕ) (x : LockedCall) (pc : LockedPC) (a : RetryAnswer) : Option (RetryState × LockedPC) :=
  match pc with
  | .fetch =>
    match PodLock.podLock s.toState x.key with
    | (locks, l) => some ({ s with toState := locks }, .acquire l)
  | .acquire l =>
    if s.owner.has l then if x.call = .retryOp then some (s, .done) else none
    else some ({ s with owner := s.owner.set l i }, begin x l)
  | .check l =>
    match s.tables.opRetries.get x.key, s.tables.pods.get x.key with
    | some r, some tracked => some (s, if a.now < r.due then .unlock l else .update l (.enter tracked))
    | _, _ => some (s, .unlock l)
  | .update l pc =>
    match s.updatePod i pc a with
    | (s, some pc) => some (s, .update l pc)
    | (s, none) => some (s, .unlock l)
  | .delete l => some (s, .unlock l)
  | .unlock l => some ({ s with owner := s.owner.del l }, .done)
  | .done => none

def step (i : ℕ) (pc : RetryPC) (a : RetryAnswer) : Option (RetryState × RetryPC × List RetryPC) :=
  if a.now < s.clock then none
  else
    let s := { s with clock := a.now }
    match pc with
    | .tick => some (s, .spawn (s.tables.dueOps a.now), [])
    | .spawn [] => none
    | .spawn (key :: keys) =>
      some (s, .spawn keys, if s.closed then [] else [.locked (.retryOp key) .fetch])
    | .locked x pc => (s.locked i x pc a).map fun r => (r.1, .locked x r.2, [])

end RetryState

/-- Everything else: the sections of other goroutines, those of `applyUpdate`, `CreatePod` and
`deletePod` among them, and `Close`. -/
inductive RetryEnv where
  | table (op : TableOp)
  | close
deriving DecidableEq

section Program
variable {S : Type} [DecidableEq S] (snapshot : LifecycleStatus → S)

/-- Only `updatePod` takes entries; the other callers of `retryOpLater` know no delay before. -/
def RetryState.env (s : RetryState) : RetryEnv → Option RetryState
  | .close => some { s with closed := true }
  | .table (.takeOpRetry _) => none
  | .table (.retryOpLater pod prev now) =>
    if prev = 0 ∧ s.clock ≤ now then
      some { s.on (s.tables.retryOpLater pod 0 now)
        (if s.tables.trackedPodMatches pod.key pod.uid then [.background pod.key now] else []) with
        clock := now }
    else none
  | .table op => some (s.on (op.run snapshot s.tables) (s.dropped op))

/-- `UpdatePod` and `DeletePod` calls and ticks of the reconciler come from outside. -/
def RetryPC.enters : RetryPC → Bool
  | .tick | .locked (.updatePod _) .fetch | .locked (.deletePod _) .fetch => true
  | _ => false

end Program

/-- A point as `PodLock` has it. -/
def LockedPC.lockPC : LockedPC → PodLock.PC
  | .fetch => .fetch
  | .acquire l => .acquire l
  | .check l => .check l
  | .update l _ | .delete l => .body l
  | .unlock l => .unlock l
  | .done => .done

def LockedCall.at (x : LockedCall) (pc : LockedPC) : PodLock.Thread := ⟨x.call, x.key, pc.lockPC⟩

/-- What `updatePod` does to the tables is one section at most. -/
theorem RetryState.updatePod_section (s : RetryState) (i : ℕ) (pc : RetryUpdatePC) (a : RetryAnswer) :
    ∃ tables log, (s.updatePod i pc a).1 = { s with tables := tables, log := log } ∧
      (tables = s.tables ∨ ∃ op : TableOp, tables = op.run id s.tables) := by
  cases pc with
  | enter | create | apply => exact ⟨s.tables, s.log, rfl, Or.inl rfl⟩
  | look pod =>
    refine ⟨s.tables, s.log, ?_, Or.inl rfl⟩
    simp only [updatePod]
    repeat' split
    all_goals rfl
  | detach pod uid v => exact ⟨_, _, rfl, Or.inr ⟨.detachIncarnation pod.key uid v, rfl⟩⟩
  | track pod => exact ⟨_, _, rfl, Or.inr ⟨.trackPodUnlessDeleting pod none, rfl⟩⟩
  | takeRetry pod => exact ⟨_, _, rfl, Or.inr ⟨.takeOpRetry pod.key, rfl⟩⟩
  | retryLater pod prev => exact ⟨_, _, rfl, Or.inr ⟨.retryOpLater pod prev a.now, rfl⟩⟩

/-- A step of a call is a section of its body, after which the call stays where `PodLock` has it or
takes the step it takes there. -/
theorem RetryState.locked_podLock {s s' : RetryState} {i : ℕ} {x : LockedCall} {pc pc' : LockedPC}
    {a : RetryAnswer} (h : s.locked i x pc a = some (s', pc')) :
    ∃ tables, (tables = s.tables ∨ ∃ op : TableOp, tables = op.run id s.tables) ∧
      ((s'.toState = { s.toState with tables := tables } ∧ pc'.lockPC = pc.lockPC) ∨
        PodLock.step { s.toState with tables := tables } i (x.at pc) a.now = some (s'.toState, x.at pc')) := by
  cases pc with
  | fetch =>
    cases h
    exact ⟨s.tables, Or.inl rfl, Or.inr rfl⟩
  | acquire l =>
    refine ⟨s.tables, Or.inl rfl, Or.inr ?_⟩
    simp only [locked] at h
    split at h
    next hheld =>
      split at h
      next hretry =>
        cases h
        simp [PodLock.step, LockedCall.at, LockedPC.lockPC, hheld, hretry]
      · cases h
    next hfree =>
      cases h
      cases x <;> simp [PodLock.step, LockedCall.at, LockedPC.lockPC, LockedCall.call, begin, hfree]
  | check l =>
    refine ⟨s.tables, Or.inl rfl, Or.inr ?_⟩
    simp only [locked] at h
    split at h
    next r tracked hr hpod =>
      cases h
      by_cases hearly : a.now < r.due
      · simp [PodLock.step, LockedCall.at, LockedPC.lockPC, PodLock.retryDue, hr, hearly]
      · simp [PodLock.step, LockedCall.at, LockedPC.lockPC, PodLock.retryDue, hr, hpod, GoMap.has, hearly,
          Nat.le_of_not_lt hearly]
    next hnone =>
      cases h
      have hdue : PodLock.retryDue s.tables x.key a.now = false := by
        rw [PodLock.retryDue, Bool.and_eq_false_iff]
        cases hr : s.tables.opRetries.get x.key with
        | none => exact Or.inl rfl
        | some r =>
          cases hpod : s.tables.pods.get x.key with
          | none => exact Or.inr ((GoMap.not_has_iff _ _).mpr hpod)
          | some tracked => exact absurd hpod (hnone r tracked hr)
      simp [PodLock.step, LockedCall.at, LockedPC.lockPC, hdue]
  | update l pc =>
    obtain ⟨tables, log, hsection, hrun⟩ := s.updatePod_section i pc a
    refine ⟨tables, hrun, ?_⟩
    simp only [locked] at h
    split at h <;> next hupdate =>
      cases h
      rw [hupdate] at hsection
      cases hsection
      first | exact Or.inl ⟨rfl, rfl⟩ | exact Or.inr rfl
  | delete l =>
    cases h
    exact ⟨s.tables, Or.inl rfl, Or.inr rfl⟩
  | unlock l =>
    cases h
    exact ⟨s.tables, Or.inl rfl, Or.inr rfl⟩
  | done => cases h

/-! ### What the sections do to the entries -/

namespace Tables
variable (t : Tables) (key k : Key)

theorem untrackLocked_opRetries :
    (t.untrackLocked key).opRetries.get k = if k = key then none else t.opRetries.get k := by
  have hsame : (t.dropVMLocked key).opRetries = t.opRetries := by rw [dropVMLocked_eq]
  simp only [untrackLocked, hsame, GoMap.get_del]

/-- The entry `retryOpLater` makes after `n` failures in a row is that of one failure more. -/
theorem retryOpLater_opRetries (pod : Pod) (n now : ℕ) :
    (t.retryOpLater pod (retryBackoff n) now).opRetries.get k =
      if t.trackedPodMatches pod.key pod.uid = true ∧ k = pod.key then
        some (Debt.entry ⟨n + 1, now⟩)
      else t.opRetries.get k := by
  unfold retryOpLater
  rw [retryBackoff_succ]
  by_cases hm : t.trackedPodMatches pod.key pod.uid = true
  · simp [hm, GoMap.get_set, Debt.entry, Debt.due]
  · simp [hm]

theorem retryOpLater_pods (pod : Pod) (prev now : ℕ) :
    (t.retryOpLater pod prev now).pods = t.pods := by
  simp only [retryOpLater, apply_ite Tables.pods, ite_self]

end Tables

section Effects
variable {S : Type} [DecidableEq S] (snapshot : LifecycleStatus → S)

/-- Besides the two sections about retries only `untrackLocked` writes the entries. -/
theorem run_opRetries (t : Tables) (op : TableOp) (hop : op.isRetry = false) (k : Key) :
    (op.run snapshot t).opRetries.get k =
      if op.untracks t = some k then none else t.opRetries.get k := by
  cases hun : op.untracks t with
  | some key =>
    obtain ⟨names, h⟩ := run_of_untracks snapshot hun
    rw [h, untrackLocked_opRetries]
    simp only [Option.some.injEq, eq_comm]
  | none => rw [(run_leaves snapshot hun).opRetries hop, if_neg (by simp)]

/-- Every section leaves the tracked pods under their own keys. -/
theorem run_keys {t : Tables} (op : TableOp) (ht : ∀ k p, t.pods.get k = some p → p.key = k) (k : Key)
    (p : Pod) (hp : (op.run snapshot t).pods.get k = some p) : p.key = k := by
  rcases run_pod snapshot t op k with (hnone | ⟨q, q', hq, hq', hsame⟩) | ⟨q, w, l, -, hkey, hq⟩
  · rw [hnone] at hp
    cases hp
  · rw [hq'] at hp
    cases hp
    rw [← hsame.key]
    exact ht k q hq
  · rw [hq] at hp
    cases hp
    exact hkey

end Effects

/-! ### The table is the ledger's -/

/-- The entries are those of the debts, no failure lies in the future, and a tracked pod stands
under its own key. -/
structure RetryState.Exact (s : RetryState) : Prop where
  entries : ∀ k, s.tables.opRetries.get k = ((Ledger.of s.log).debts.get k).map Debt.entry
  debts : ∀ k d, (Ledger.of s.log).debts.get k = some d → 1 ≤ d.failures ∧ d.failedAt ≤ s.clock
  keys : ∀ k p, s.tables.pods.get k = some p → p.key = k

/-- The delay an attempt has taken. -/
def RetryUpdatePC.prev : RetryUpdatePC → Option ℕ
  | .apply _ prev | .retryLater _ prev => some prev
  | _ => none

def RetryPC.prev : RetryPC → Option ℕ
  | .locked _ (.update _ pc) => pc.prev
  | _ => none

/-- It is that of the failures that led to the attempt. -/
def RetryPC.Counts (s : RetryState) (i : ℕ) (pc : RetryPC) : Prop :=
  ∀ prev, pc.prev = some prev → prev = retryBackoff ((Ledger.of s.log).failuresBefore i)

namespace RetryState
variable {s : RetryState}

theorem Exact.later (hs : s.Exact) {now : ℕ} (h : s.clock ≤ now) : Exact { s with clock := now } :=
  ⟨hs.entries, fun k d hd => ⟨(hs.debts k d hd).1, (hs.debts k d hd).2.trans h⟩, hs.keys⟩

/-- The mutexes are no part of what is owed. -/
structure SameRetries (s s' : RetryState) : Prop where
  entries : s'.tables.opRetries = s.tables.opRetries
  pods : s'.tables.pods = s.tables.pods
  clock : s'.clock = s.clock
  log : s'.log = s.log

theorem SameRetries.refl (s : RetryState) : SameRetries s s := ⟨rfl, rfl, rfl, rfl⟩

theorem Exact.same (hs : s.Exact) {s' : RetryState} (h : SameRetries s s') : s'.Exact := by
  refine ⟨fun k => ?_, fun k d hd => ?_, fun k p hp => ?_⟩
  · rw [h.entries, h.log]
    exact hs.entries k
  · rw [h.log] at hd
    rw [h.clock]
    exact hs.debts k d hd
  · rw [h.pods] at hp
    exact hs.keys k p hp

/-- A section that drops the entry of a key at most. -/
theorem Exact.dropped (hs : s.Exact) {tables : Tables} {op : TableOp}
    (hget : ∀ k, tables.opRetries.get k =
      if op.untracks s.tables = some k then none else s.tables.opRetries.get k)
    (hkeys : ∀ k p, tables.pods.get k = some p → p.key = k) : (s.on tables (s.dropped op)).Exact := by
  have hdebt : ∀ k, (Ledger.of (s.log ++ s.dropped op)).debts.get k =
      if op.untracks s.tables = some k then none else (Ledger.of s.log).debts.get k := by
    intro k
    rw [Ledger.of_append, RetryState.dropped]
    cases op.untracks s.tables with
    | none => simp
    | some key => simp [Ledger.note, GoMap.get_del, eq_comm]
  refine ⟨fun k => ?_, fun k d hd => ?_, hkeys⟩
  · have hrow : tables.opRetries.get k = _ := hget k
    simp only [on, hrow, hdebt, hs.entries k]
    split <;> rfl
  · simp only [on, hdebt] at hd
    split at hd
    · cases hd
    · exact hs.debts k d hd

/-- A failure that is entered with one failure more. -/
theorem Exact.failed (hs : s.Exact) (pod : Pod) (n : ℕ) {now : ℕ} {e : RetryEvent} (h : s.clock ≤ now)
    (hnote : ((Ledger.of s.log).note e).debts = (Ledger.of s.log).debts.set pod.key ⟨n + 1, now⟩) :
    Exact { s.on (s.tables.retryOpLater pod (retryBackoff n) now)
      (if s.tables.trackedPodMatches pod.key pod.uid then [e] else []) with clock := now } := by
  have hdebt : ∀ k, (Ledger.of (s.log ++
        if s.tables.trackedPodMatches pod.key pod.uid then [e] else [])).debts.get k =
      if s.tables.trackedPodMatches pod.key pod.uid = true ∧ k = pod.key then some ⟨n + 1, now⟩
      else (Ledger.of s.log).debts.get k := by
    intro k
    rw [Ledger.of_append]
    by_cases hm : s.tables.trackedPodMatches pod.key pod.uid = true
    · simp [hm, hnote, GoMap.get_set]
    · simp [hm]
  refine ⟨fun k => ?_, fun k d hd => ?_, fun k p hp => ?_⟩
  · simp only [on, retryOpLater_opRetries, hdebt, hs.entries k]
    split <;> rfl
  · simp only [on, hdebt] at hd
    split at hd
    · cases hd
      exact ⟨Nat.le_add_left 1 n, Nat.le_refl now⟩
    · exact ⟨(hs.debts k d hd).1, (hs.debts k d hd).2.trans h⟩
  · simp only [on, retryOpLater_pods] at hp
    exact hs.keys k p hp

/-- An attempt takes the entry of its pod with it. -/
theorem Exact.attempt (hs : s.Exact) (i : ℕ) (key : Key) :
    (s.on (s.tables.takeOpRetry key).1 [.attempt i key]).Exact := by
  have hdebt : ∀ k, (Ledger.of (s.log ++ [.attempt i key])).debts.get k =
      if k = key then none else (Ledger.of s.log).debts.get k := by
    intro k
    simp [Ledger.of_append, Ledger.note, GoMap.get_del]
  refine ⟨fun k => ?_, fun k d hd => ?_, hs.keys⟩
  · simp only [on, takeOpRetry, GoMap.get_del, hdebt, hs.entries k]
    split <;> rfl
  · simp only [on, hdebt] at hd
    split at hd
    · cases hd
    · exact hs.debts k d hd

/-- The delay an attempt takes is that of the failures it is told. -/
theorem Exact.taken (hs : s.Exact) (key : Key) :
    (s.tables.takeOpRetry key).2 = retryBackoff ((Ledger.of s.log).failuresOf key) := by
  simp only [takeOpRetry, hs.entries key, Ledger.failuresOf]
  cases (Ledger.of s.log).debts.get key with
  | none => simp [retryBackoff_zero]
  | some d => simp [Debt.entry]

/-- A section of other code. -/
theorem Exact.table {S : Type} [DecidableEq S] (snapshot : LifecycleStatus → S) (hs : s.Exact)
    {op : TableOp} (hop : op.isRetry = false) :
    (s.on (op.run snapshot s.tables) (s.dropped op)).Exact :=
  hs.dropped (run_opRetries snapshot s.tables op hop) (run_keys snapshot op hs.keys)

end RetryState

/-! ### What a step can do -/

/-- The steps of `updatePod` at the time the state shows: the state and the delay it leaves behind. -/
inductive RetryMove (s : RetryState) (i : ℕ) : Option ℕ → RetryState → Option ℕ → Prop where
  | quiet {prev prev' : Option ℕ} {s' : RetryState} (hsame : s.SameRetries s')
    (h : prev' = none ∨ prev' = prev) : RetryMove s i prev s' prev'
  | table {prev : Option ℕ} (op : TableOp) (hop : op.isRetry = false) :
    RetryMove s i prev (s.on (op.run id s.tables) (s.dropped op)) none
  | attempt {prev : Option ℕ} (pod : Pod) : RetryMove s i prev
      (s.on (s.tables.takeOpRetry pod.key).1 [.attempt i pod.key]) (some (s.tables.takeOpRetry pod.key).2)
  | failed (pod : Pod) (prev : ℕ) : RetryMove s i (some prev)
      (s.on (s.tables.retryOpLater pod prev s.clock)
        (if s.tables.trackedPodMatches pod.key pod.uid then [.failed i pod.key s.clock] else [])) none

namespace RetryState
variable {s s' : RetryState} {i : ℕ} {a : RetryAnswer}

/- A step that writes nothing about retries. -/
theorem move_quiet (prev : Option ℕ) : RetryMove s i prev s none := .quiet (.refl s) (Or.inl rfl)

theorem updatePod_move {pc : RetryUpdatePC} {pc' : Option RetryUpdatePC} (hnow : s.clock = a.now)
    (h : s.updatePod i pc a = (s', pc')) : RetryMove s i pc.prev s' (pc'.bind RetryUpdatePC.prev) := by
  cases pc with
  | enter pod =>
    cases h
    split <;> exact move_quiet _
  | look pod =>
    simp only [updatePod] at h
    split at h
    · split at h
      · split at h <;> cases h <;> exact move_quiet _
      · cases h
        exact move_quiet _
    · cases h
      simp only [Option.bind_some]
      split <;> exact move_quiet _
  | detach pod uid v =>
    cases h
    split <;> exact .table (.detachIncarnation pod.key uid v) rfl
  | create =>
    cases h
    exact move_quiet _
  | track pod =>
    cases h
    split <;> exact .table (.trackPodUnlessDeleting pod none) rfl
  | takeRetry pod =>
    cases h
    exact .attempt pod
  | apply pod prev =>
    cases h
    split
    · exact .quiet (.refl s) (Or.inr rfl)
    · exact move_quiet _
  | retryLater pod prev =>
    cases h
    rw [← hnow]
    exact .failed pod prev

theorem podLock_same (key : Key) : s.SameRetries { s with toState := (PodLock.podLock s.toState key).1 } := by
  unfold PodLock.podLock
  split <;> exact ⟨rfl, rfl, rfl, rfl⟩

theorem locked_move {x : LockedCall} {pc pc' : LockedPC} (hnow : s.clock = a.now)
    (h : s.locked i x pc a = some (s', pc')) :
    RetryMove s i (RetryPC.locked x pc).prev s' (RetryPC.locked x pc').prev := by
  cases pc with
  | fetch =>
    cases h
    exact .quiet (podLock_same x.key) (Or.inl rfl)
  | acquire l =>
    simp only [locked] at h
    split at h
    · split at h <;> cases h
      exact move_quiet _
    · cases h
      refine .quiet ⟨rfl, rfl, rfl, rfl⟩ (Or.inl ?_)
      cases x <;> rfl
  | check l =>
    simp only [locked] at h
    split at h
    · cases h
      split <;> exact move_quiet _
    · cases h
      exact move_quiet _
  | update l pc =>
    simp only [locked] at h
    split at h <;> next hupdate =>
      cases h
      exact updatePod_move hnow hupdate
  | delete l =>
    cases h
    exact move_quiet _
  | unlock l =>
    cases h
    exact .quiet ⟨rfl, rfl, rfl, rfl⟩ (Or.inl rfl)
  | done => cases h

theorem step_move {pc pc' : RetryPC} {new : List RetryPC} (h : s.step i pc a = some (s', pc', new)) :
    s.clock ≤ a.now ∧ RetryMove { s with clock := a.now } i pc.prev s' pc'.prev ∧
      ∀ u ∈ new, u.prev = none := by
  unfold RetryState.step at h
  split at h
  · cases h
  next hclock =>
    refine ⟨Nat.le_of_not_lt hclock, ?_⟩
    cases pc with
    | tick =>
      cases h
      exact ⟨move_quiet _, by simp⟩
    | spawn keys =>
      cases keys with
      | nil => cases h
      | cons key keys =>
        cases h
        refine ⟨move_quiet _, fun u hu => ?_⟩
        split at hu
        · cases hu
        · rw [List.mem_singleton.mp hu]
          rfl
    | locked x pc =>
      obtain ⟨⟨s₁, pc₁⟩, hstep, heq⟩ := Option.map_eq_some_iff.mp h
      cases heq
      exact ⟨locked_move (s := { s with clock := a.now }) rfl hstep, by simp⟩

end RetryState

namespace Ledger

end Ledger

/-- A section of another call leaves the failures of this one. -/
theorem RetryState.dropped_attempt (s : RetryState) (op : TableOp) (j : ℕ) :
    ∀ e ∈ s.dropped op, ∀ key, e ≠ .attempt j key := by
  intro e he key heq
  obtain ⟨k, -, rfl⟩ := List.mem_map.mp he
  cases heq

theorem RetryMove.log {s s' : RetryState} {i : ℕ} {prev prev' : Option ℕ}
    (h : RetryMove s i prev s' prev') :
    ∃ events, s'.log = s.log ++ events ∧ ∀ j, j ≠ i → ∀ e ∈ events, ∀ key, e ≠ .attempt j key := by
  cases h with
  | quiet hsame h => exact ⟨[], by simp [hsame.log], by simp⟩
  | table op hop => exact ⟨s.dropped op, rfl, fun j _ => s.dropped_attempt op j⟩
  | attempt pod =>
    refine ⟨[.attempt i pod.key], rfl, fun j hj e he key heq => ?_⟩
    rw [List.mem_singleton.mp he] at heq
    cases heq
    exact hj rfl
  | failed pod prev =>
    refine ⟨_, rfl, fun j _ e he key heq => ?_⟩
    split at he
    · rw [List.mem_singleton.mp he] at heq
      cases heq
    · cases he

theorem RetryMove.exact {s s' : RetryState} {i : ℕ} {pc pc' : RetryPC}
    (h : RetryMove s i pc.prev s' pc'.prev) (hs : s.Exact) (hpc : pc.Counts s i) :
    s'.Exact ∧ pc'.Counts s' i := by
  unfold RetryPC.Counts at hpc ⊢
  generalize pc.prev = prev at h hpc
  generalize pc'.prev = prev' at h
  cases h with
  | quiet hsame h =>
    refine ⟨hs.same hsame, fun n hn => ?_⟩
    rw [hsame.log]
    rcases h with rfl | rfl
    · cases hn
    · exact hpc n hn
  | table op hop => exact ⟨hs.table id hop, fun _ h => by cases h⟩
  | attempt pod =>
    refine ⟨hs.attempt i pod.key, fun n hn => ?_⟩
    cases hn
    simp only [RetryState.on, hs.taken, Ledger.of_append, List.foldl_cons, List.foldl_nil, Ledger.note,
      Ledger.failuresBefore, GoMap.get_set_self, Option.getD_some]
  | failed pod n =>
    have hn : n = retryBackoff ((Ledger.of s.log).failuresBefore i) := hpc n rfl
    refine ⟨?_, fun _ h => by cases h⟩
    rw [hn]
    exact hs.failed pod _ (Nat.le_refl s.clock) rfl

section Runs
variable {S : Type} [DecidableEq S] (snapshot : LifecycleStatus → S)

variable {c : Config RetryState RetryPC}

/-- An answer at the time the state shows. -/
def RetryState.answer (s : RetryState) : RetryAnswer := ⟨s.clock, false, some true, false⟩

/-- Nothing stands in the way of an attempt on the pod: no call holds the mutex that `podLock` gives
for it, and it is neither resumed nor deleted. -/
structure RetryState.Free (s : RetryState) (key : Key) : Prop where
  opened : s.closed = false
  unlocked : s.owner.get (PodLock.podLock s.toState key).2 = none
  resumed : s.tables.resumedOps.has key = false
  deleting : s.tables.deletingLocked key = false

end Runs

end VkCocoon
