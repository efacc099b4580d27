import VkCocoon.Ops
import VkCocoon.Lib.Pool

/-!
# The per-pod lock

UpdatePod, DeletePod and retryOp run their bodies under a mutex they look up by pod
key. The mutex lives in `podLocks`, and `untrackLocked` deletes the entry whether or
not somebody uses the mutex. A mutex is a number here; `owner` says which thread
holds it. Everything else that happens to the tables, the effects of the bodies and
the evictions among it, is an operation of the surroundings.
-/

namespace VkCocoon
open Lib Tables

namespace PodLock

inductive Call where
  | updatePod
  | deletePod
  | retryOp
deriving DecidableEq

inductive PC where
  /-- before `p.podLock(key)` -/
  | fetch
  /-- at `l.Lock()`, or at `l.TryLock()` for `retryOp` -/
  | acquire (l : ℕ)
  /-- `retryOp` under the lock, before it reads what is owed -/
  | check (l : ℕ)
  /-- inside `updatePod` or `deletePod` -/
  | body (l : ℕ)
  /-- before the deferred `l.Unlock()` -/
  | unlock (l : ℕ)
  | done
deriving DecidableEq

structure Thread where
  call : Call
  key : Key
  pc : PC
deriving DecidableEq

structure State where
  tables : Tables
  owner : GoMap ℕ ℕ
  nextLock : ℕ

/-- The mutex a thread has been given and has not done with. -/
def PC.lock : PC → Option ℕ
  | .acquire l | .check l | .body l | .unlock l => some l
  | _ => none

def PC.owns : PC → Option ℕ
  | .check l | .body l | .unlock l => some l
  | _ => none

def Thread.inBody (t : Thread) : Bool :=
  match t.pc with
  | .body _ => true
  | _ => false

/-- `podLock` -/
def podLock (s : State) (key : Key) : State × ℕ :=
  match s.tables.podLocks.get key with
  | some l => (s, l)
  | none =>
    ({ s with
        tables := { s.tables with podLocks := s.tables.podLocks.set key s.nextLock }
        nextLock := s.nextLock + 1 },
      s.nextLock)

/-- The look of `retryOp` at `opRetries` and `pods`. -/
def retryDue (t : Tables) (key : Key) (now : ℕ) : Bool :=
  (t.opRetries.get key).any (fun r => decide (r.due ≤ now)) && t.pods.has key

/-- One atomic step of thread `i`; the answer is the time `retryOp` reads. -/
def step (s : State) (i : ℕ) (t : Thread) (now : ℕ) : Option (State × Thread) :=
  match t.pc with
  | .fetch =>
    let (s, l) := podLock s t.key
    some (s, { t with pc := .acquire l })
  | .acquire l =>
    if s.owner.has l then if t.call = .retryOp then some (s, { t with pc := .done }) else none
    else
      some ({ s with owner := s.owner.set l i },
        { t with pc := if t.call = .retryOp then .check l else .body l })
  | .check l =>
    some (s, { t with pc := if retryDue s.tables t.key now then .body l else .unlock l })
  | .body l => some (s, { t with pc := .unlock l })
  | .unlock l => some ({ s with owner := s.owner.del l }, { t with pc := .done })
  | .done => none

variable {S : Type} [DecidableEq S] (snapshot : LifecycleStatus → S)

def program : Program State Thread ℕ TableOp :=
  .ofStep (fun _ t => decide (t.pc = .fetch)) step
    fun s op => some { s with tables := op.run snapshot s.tables }

/-- At most one of the bodies is executing for a key. -/
def OneBody (c : Config State Thread) : Prop :=
  ∀ (i j : ℕ) (a b : Thread), c.threads[i]? = some a → c.threads[j]? = some b →
    a.inBody = true → b.inBody = true → a.key = b.key → i = j

/- An eviction untracks the pod while an update of it runs, and the next update gets a
mutex of its own. -/
def overlapTrace : List (PoolEvent Thread ℕ TableOp) :=
  [.start ⟨.updatePod, "ns/a", .fetch⟩, .run 0 0, .run 0 0,
   .env (.untrackIncarnation "ns/a" "u"),
   .start ⟨.updatePod, "ns/a", .fetch⟩, .run 1 0, .run 1 0]

theorem bodies_overlap_after_untrack :
    ¬ ∀ (t : Tables) (es : List (PoolEvent Thread ℕ TableOp)) (c : Config State Thread),
      (program (id : LifecycleStatus → LifecycleStatus)).machine.exec ⟨⟨t, .empty, 0⟩, []⟩ es =
        some c → OneBody c := by
  intro h
  have hrun : ((program (id : LifecycleStatus → LifecycleStatus)).machine.exec
      ⟨⟨(TableOp.trackPodLocked samplePod (some sampleVM)).run id .new, .empty, 0⟩, []⟩
      overlapTrace).map (fun c => c.threads) =
      some [⟨.updatePod, "ns/a", .body 0⟩, ⟨.updatePod, "ns/a", .body 1⟩] := by decide
  obtain ⟨c, hc, hts⟩ := Option.map_eq_some_iff.mp hrun
  have hone := h _ _ c hc 0 1 ⟨.updatePod, "ns/a", .body 0⟩ ⟨.updatePod, "ns/a", .body 1⟩
  rw [hts] at hone
  exact absurd (hone rfl rfl rfl rfl rfl) (by decide)

/-! ### Where exclusion survives -/

/-- `podLock` makes a new mutex for a key only when no call on that key is waiting for, or
running under, the mutex it was given before. -/
def FreshOnlyIdle (c : Config State Thread) : PoolEvent Thread ℕ TableOp → Prop
  | .run i _ => ∀ t ∈ c.threads[i]?, t.pc = .fetch →
      c.shared.tables.podLocks.get t.key = none → ∀ u ∈ c.threads, u.key = t.key → u.pc.lock = none
  | _ => True

instance (c : Config State Thread) :
    (e : PoolEvent Thread ℕ TableOp) → Decidable (FreshOnlyIdle c e)
  | .run i _ => inferInstanceAs (Decidable
      (∀ t ∈ c.threads[i]?, t.pc = .fetch → c.shared.tables.podLocks.get t.key = none →
        ∀ u ∈ c.threads, u.key = t.key → u.pc.lock = none))
  | .start _ | .env _ => .isTrue trivial

/- What one step does: the mutex is looked up or made, missed, taken, kept, or given back. -/
theorem step_cases {s s' : State} {i : ℕ} {t t' : Thread} {now : ℕ}
    (h : step s i t now = some (s', t')) : t'.key = t.key ∧
    ((∃ l, t.pc = .fetch ∧ s.tables.podLocks.get t.key = some l ∧ s' = s ∧ t'.pc = .acquire l) ∨
     (t.pc = .fetch ∧ s.tables.podLocks.get t.key = none ∧ s'.owner = s.owner ∧
       s'.tables.podLocks = s.tables.podLocks.set t.key s.nextLock ∧ t'.pc = .acquire s.nextLock) ∨
     (s' = s ∧ t'.pc = .done) ∨
     (∃ l, t.pc = .acquire l ∧ s.owner.get l = none ∧ s' = { s with owner := s.owner.set l i } ∧
       t'.pc.owns = some l ∧ t'.pc.lock = some l) ∨
     (∃ l, t.pc.owns = some l ∧ t.pc.lock = some l ∧ s' = s ∧ t'.pc.owns = some l ∧
       t'.pc.lock = some l) ∨
     (∃ l, t.pc = .unlock l ∧ s' = { s with owner := s.owner.del l } ∧ t'.pc = .done)) := by
  unfold step at h
  cases hpc : t.pc with
  | fetch =>
    rw [hpc] at h
    simp only [podLock] at h
    cases hl : s.tables.podLocks.get t.key with
    | some l =>
      rw [hl] at h
      cases h
      exact ⟨rfl, Or.inl ⟨l, rfl, rfl, rfl, rfl⟩⟩
    | none =>
      rw [hl] at h
      cases h
      exact ⟨rfl, Or.inr (Or.inl ⟨rfl, rfl, rfl, rfl, rfl⟩)⟩
  | acquire l =>
    simp only [hpc] at h
    split at h
    · split at h
      · cases h
        exact ⟨rfl, Or.inr (Or.inr (Or.inl ⟨rfl, rfl⟩))⟩
      · cases h
    next hfree =>
      cases h
      have hnone : s.owner.get l = none := (GoMap.not_has_iff _ _).mp (by simpa using hfree)
      refine ⟨rfl, Or.inr (Or.inr (Or.inr (Or.inl ⟨l, rfl, hnone, rfl, ?_, ?_⟩)))⟩
      · dsimp only
        split <;> rfl
      · dsimp only
        split <;> rfl
  | check l =>
    simp only [hpc] at h
    cases h
    refine ⟨rfl, Or.inr (Or.inr (Or.inr (Or.inr (Or.inl ⟨l, rfl, rfl, rfl, ?_, ?_⟩))))⟩
    · dsimp only
      split <;> rfl
    · dsimp only
      split <;> rfl
  | body l =>
    simp only [hpc] at h
    cases h
    exact ⟨rfl, Or.inr (Or.inr (Or.inr (Or.inr (Or.inl ⟨l, rfl, rfl, rfl, rfl, rfl⟩))))⟩
  | unlock l =>
    simp only [hpc] at h
    cases h
    exact ⟨rfl, Or.inr (Or.inr (Or.inr (Or.inr (Or.inr ⟨l, rfl, rfl, rfl⟩))))⟩
  | done =>
    simp only [hpc] at h
    cases h

/-- A thread past its acquire owns its mutex, and all users of a key use one mutex: the one
`podLocks` has for the key, as long as it has one. -/
structure LockInv (c : Config State Thread) : Prop where
  owns : ∀ (i : ℕ) (t : Thread) (l : ℕ), c.threads[i]? = some t → t.pc.owns = some l →
    c.shared.owner.get l = some i
  agree : ∀ (i j : ℕ) (a b : Thread) (l m : ℕ), c.threads[i]? = some a → c.threads[j]? = some b →
    a.key = b.key → a.pc.lock = some l → b.pc.lock = some m → l = m
  current : ∀ (i : ℕ) (a : Thread) (l m : ℕ), c.threads[i]? = some a → a.pc.lock = some l →
    c.shared.tables.podLocks.get a.key = some m → l = m

theorem untrackLocked_podLocks (t : Tables) (key k : Key) :
    (t.untrackLocked key).podLocks.get k = t.podLocks.get k ∨
    (t.untrackLocked key).podLocks.get k = none := by
  have heq : (t.untrackLocked key).podLocks = t.podLocks.del key := by
    simp only [untrackLocked]
    rw [dropVMLocked_eq]
  rw [heq, GoMap.get_del]
  by_cases hk : k = key <;> simp [hk]

/- The tables lose mutexes and never gain or exchange one. -/
theorem run_podLocks (t : Tables) (op : TableOp) (k : Key) :
    (op.run snapshot t).podLocks.get k = t.podLocks.get k ∨
    (op.run snapshot t).podLocks.get k = none := by
  cases hun : op.untracks t with
  | some key =>
    obtain ⟨names, h⟩ := run_of_untracks snapshot hun
    rw [h]
    exact untrackLocked_podLocks t key k
  | none => exact Or.inl (by rw [(run_leaves snapshot hun).podLocks])

/- The invariant after thread `i` moved, from what holds of that thread and of the others. -/
theorem LockInv.move {c : Config State Thread} {i : ℕ} {t t' : Thread} {s' : State}
    (hc : LockInv c) (hkey : t'.key = t.key)
    (hown : ∀ l, t'.pc.owns = some l → s'.owner.get l = some i)
    (hother : ∀ (j : ℕ) (u : Thread) (l : ℕ), j ≠ i → c.threads[j]? = some u →
      u.pc.owns = some l → s'.owner.get l = some j)
    (hlock : ∀ l, t'.pc.lock = some l →
      (∀ (j : ℕ) (u : Thread) (m : ℕ), j ≠ i → c.threads[j]? = some u → u.key = t.key →
        u.pc.lock = some m → l = m) ∧
      ∀ m, s'.tables.podLocks.get t.key = some m → l = m)
    (hcur : ∀ (j : ℕ) (u : Thread) (l m : ℕ), j ≠ i → c.threads[j]? = some u →
      u.pc.lock = some l → s'.tables.podLocks.get u.key = some m → l = m) :
    LockInv ⟨s', c.threads.set i t'⟩ := by
  constructor
  · intro j u l hu ho
    rcases Program.getElem?_set_cases hu with ⟨rfl, rfl⟩ | ⟨hne, hj⟩
    · exact hown l ho
    · exact hother j u l hne hj ho
  · intro j k a b l m ha hb hab hla hlb
    rcases Program.getElem?_set_cases ha with ⟨rfl, rfl⟩ | ⟨hj, ha'⟩
    · rcases Program.getElem?_set_cases hb with ⟨rfl, rfl⟩ | ⟨hk, hb'⟩
      · rw [hla] at hlb
        exact Option.some.inj hlb
      · exact (hlock l hla).1 k b m hk hb' (hab.symm.trans hkey) hlb
    · rcases Program.getElem?_set_cases hb with ⟨rfl, rfl⟩ | ⟨hk, hb'⟩
      · exact ((hlock m hlb).1 j a l hj ha' (hab.trans hkey) hla).symm
      · exact hc.agree j k a b l m ha' hb' hab hla hlb
  · intro j a l m ha hla hm
    rcases Program.getElem?_set_cases ha with ⟨rfl, rfl⟩ | ⟨hj, ha'⟩
    · rw [hkey] at hm
      exact (hlock l hla).2 m hm
    · exact hcur j a l m hj ha' hla hm

theorem step_lockInv {c : Config State Thread} {i now : ℕ} {t t' : Thread} {s' : State}
    (hc : LockInv c) (hidle : FreshOnlyIdle c (.run i now)) (ht : c.threads[i]? = some t)
    (hs : step c.shared i t now = some (s', t')) : LockInv ⟨s', c.threads.set i t'⟩ := by
  have hsame : ∀ l, t.pc.lock = some l →
      (∀ (j : ℕ) (u : Thread) (m : ℕ), j ≠ i → c.threads[j]? = some u → u.key = t.key →
        u.pc.lock = some m → l = m) ∧
      ∀ m, c.shared.tables.podLocks.get t.key = some m → l = m := by
    intro l hl
    exact ⟨fun j u m _ hu hk hm => hc.agree i j t u l m ht hu hk.symm hl hm,
      fun m hm => hc.current i t l m ht hl hm⟩
  obtain ⟨hkey, hcase⟩ := step_cases hs
  rcases hcase with ⟨l, hpc, hl, rfl, hpc'⟩ | ⟨hpc, hl, howner, hlocks, hpc'⟩ | ⟨rfl, hpc'⟩ |
    ⟨l, hpc, hfree, rfl, ho', hl'⟩ | ⟨l, ho, hlk, rfl, ho', hl'⟩ | ⟨l, hpc, rfl, hpc'⟩
  · -- the mutex of the table, which is the one all users of the key have
    refine hc.move hkey (fun m hm => by rw [hpc'] at hm; cases hm)
      (fun j u m _ hu hm => hc.owns j u m hu hm) (fun m hm => ?_)
      (fun j u m n _ hu hm hn => hc.current j u m n hu hm hn)
    rw [hpc'] at hm
    cases hm
    refine ⟨fun j u m _ hu hk hm => ?_, fun m hm => ?_⟩
    · rw [← hk] at hl
      exact (hc.current j u m l hu hm hl).symm
    · rw [hl] at hm
      exact Option.some.inj hm
  · -- a new mutex: by the guard nobody uses another one for this key
    have hnone := hidle t ht hpc hl
    refine hc.move hkey (fun m hm => by rw [hpc'] at hm; cases hm)
      (fun j u m _ hu hm => by rw [howner]; exact hc.owns j u m hu hm) (fun m hm => ?_)
      (fun j u m n _ hu hm hn => ?_)
    · rw [hpc'] at hm
      cases hm
      refine ⟨fun j u m _ hu hk hm => ?_, fun m hm => ?_⟩
      · rw [hnone u (List.mem_of_getElem? hu) hk] at hm
        cases hm
      · rw [hlocks, GoMap.get_set_self] at hm
        exact Option.some.inj hm
    · rw [hlocks, GoMap.get_set] at hn
      split at hn
      next hk =>
        rw [hnone u (List.mem_of_getElem? hu) hk] at hm
        cases hm
      next => exact hc.current j u m n hu hm hn
  · exact hc.move hkey (fun m hm => by rw [hpc'] at hm; cases hm)
      (fun j u m _ hu hm => hc.owns j u m hu hm) (fun m hm => by rw [hpc'] at hm; cases hm)
      (fun j u m n _ hu hm hn => hc.current j u m n hu hm hn)
  · -- the mutex was free, so no other thread owns it
    refine hc.move hkey (fun m hm => ?_) (fun j u m _ hu hm => ?_) (fun m hm => ?_)
      (fun j u m n _ hu hm hn => hc.current j u m n hu hm hn)
    · rw [ho'] at hm
      cases hm
      exact GoMap.get_set_self _ _ _
    · have hown := hc.owns j u m hu hm
      have hml : m ≠ l := by
        rintro rfl
        rw [hfree] at hown
        cases hown
      exact (GoMap.get_set_ne _ _ hml).trans hown
    · rw [hl'] at hm
      cases hm
      exact hsame l (by rw [hpc]; rfl)
  · refine hc.move hkey (fun m hm => ?_) (fun j u m _ hu hm => hc.owns j u m hu hm)
      (fun m hm => ?_) (fun j u m n _ hu hm hn => hc.current j u m n hu hm hn)
    · rw [ho'] at hm
      cases hm
      exact hc.owns i t l ht ho
    · rw [hl'] at hm
      cases hm
      exact hsame l hlk
  · -- the release: another owner owns another mutex
    refine hc.move hkey (fun m hm => by rw [hpc'] at hm; cases hm) (fun j u m hj hu hm => ?_)
      (fun m hm => by rw [hpc'] at hm; cases hm)
      (fun j u m n _ hu hm hn => hc.current j u m n hu hm hn)
    have hown := hc.owns j u m hu hm
    have hml : m ≠ l := by
      rintro rfl
      rw [hc.owns i t m ht (by rw [hpc]; rfl)] at hown
      exact hj (Option.some.inj hown).symm
    exact (GoMap.get_del_ne _ hml).trans hown

theorem next_lockInv {c c' : Config State Thread} {e : PoolEvent Thread ℕ TableOp}
    (hc : LockInv c) (hidle : FreshOnlyIdle c e) (h : (program snapshot).next c e = some c') :
    LockInv c' := by
  cases e with
  | start t =>
    obtain ⟨he, rfl⟩ := (program snapshot).next_start h
    have hfetch : t.pc = .fetch := by simpa [program, Program.ofStep] using he
    have hold : ∀ (j : ℕ) (u : Thread) (l : ℕ), (c.threads ++ [t])[j]? = some u →
        u.pc.lock = some l → c.threads[j]? = some u := by
      intro j u l hu hl
      rcases Program.getElem?_snoc_cases hu with hj | ⟨-, rfl⟩
      · exact hj
      · rw [hfetch] at hl
        cases hl
    have howns : ∀ (u : Thread) (l : ℕ), u.pc.owns = some l → u.pc.lock = some l := by
      intro u l hl
      cases hpc : u.pc <;> simp_all [PC.owns, PC.lock]
    constructor
    · intro j u l hu hl
      exact hc.owns j u l (hold j u l hu (howns u l hl)) hl
    · intro j k a b l m ha hb hab hla hlb
      exact hc.agree j k a b l m (hold j a l ha hla) (hold k b m hb hlb) hab hla hlb
    · intro j a l m ha hla hm
      exact hc.current j a l m (hold j a l ha hla) hla hm
  | run i now =>
    obtain ⟨t, s', t', ht, hs, rfl⟩ := Program.ofStep_run h
    exact step_lockInv hc hidle ht hs
  | env op =>
    obtain ⟨s', hs, rfl⟩ := (program snapshot).next_env h
    cases hs
    refine ⟨hc.owns, hc.agree, fun j a l m ha hla hm => ?_⟩
    rcases run_podLocks snapshot c.shared.tables op a.key with hk | hk
    · rw [hk] at hm
      exact hc.current j a l m ha hla hm
    · rw [hk] at hm
      cases hm

/-- In every run in which `podLock` makes a new mutex only for a key nobody still uses an
earlier mutex of, at most one body executes for a key at any time. -/
theorem oneBody_of_freshOnlyIdle (t : Tables) (n : ℕ) (es : List (PoolEvent Thread ℕ TableOp))
    (c : Config State Thread)
    (hg : (program snapshot).machine.Guarded FreshOnlyIdle ⟨⟨t, .empty, n⟩, []⟩ es)
    (h : (program snapshot).machine.exec ⟨⟨t, .empty, n⟩, []⟩ es = some c) : OneBody c := by
  have hinit : LockInv ⟨⟨t, .empty, n⟩, []⟩ := by
    constructor
    · intro i u l hu
      simp at hu
    · intro i j a b l m ha
      simp at ha
    · intro i a l m ha
      simp at ha
  have hinv : LockInv c := (program snapshot).machine.exec_invariant
    (fun _ _ _ hc hg hn => next_lockInv snapshot hc hg hn) hinit hg h
  intro i j a b ha hb hia hjb hk
  have hbody : ∀ u : Thread, u.inBody = true →
      ∃ l, u.pc.owns = some l ∧ u.pc.lock = some l := by
    intro u hu
    unfold Thread.inBody at hu
    split at hu
    next l hpc => exact ⟨l, by rw [hpc]; rfl, by rw [hpc]; rfl⟩
    next => cases hu
  obtain ⟨l, hol, hll⟩ := hbody a hia
  obtain ⟨m, hom, hlm⟩ := hbody b hjb
  have hlm' : l = m := hinv.agree i j a b l m ha hb hk hll hlm
  subst hlm'
  have hi := hinv.owns i a l ha hol
  rw [hinv.owns j b l hb hom] at hi
  exact (Option.some.inj hi).symm

/- A delete waits for the update that was there first, and runs after it. -/
def waitTrace : List (PoolEvent Thread ℕ TableOp) :=
  [.start ⟨.updatePod, "ns/a", .fetch⟩, .run 0 0, .run 0 0,
   .start ⟨.deletePod, "ns/a", .fetch⟩, .run 1 0, .run 0 0, .run 0 0, .run 1 0,
   .env (.forgetPod "ns/a")]

theorem oneBody_delete_after_update :
    ∃ c : Config State Thread,
      (program (id : LifecycleStatus → LifecycleStatus)).machine.exec ⟨⟨.new, .empty, 0⟩, []⟩
        waitTrace = some c ∧
      c.threads = [⟨.updatePod, "ns/a", .done⟩, ⟨.deletePod, "ns/a", .body 0⟩] ∧ OneBody c := by
  have hrun : ((program (id : LifecycleStatus → LifecycleStatus)).machine.exec
      ⟨⟨.new, .empty, 0⟩, []⟩ waitTrace).map (fun c => c.threads) =
      some [⟨.updatePod, "ns/a", .done⟩, ⟨.deletePod, "ns/a", .body 0⟩] := by decide
  obtain ⟨c, hc, hts⟩ := Option.map_eq_some_iff.mp hrun
  exact ⟨c, hc, hts, oneBody_of_freshOnlyIdle id .new 0 waitTrace c (by decide) hc⟩

end PodLock
end VkCocoon
