import VkCocoon.Watcher

/-!
# The setup tails

What runs in the background once a VM is bound to a pod: the post-clone fixup
(`runPostCloneSetup`), the SAC pass of a Windows guest with static addresses
(`runWindowsSAC`), and the wait for the lease that `ready` promises
(`markReadyAfterIP`). A tail keeps the pod and the VM it was started with, and
minutes pass between its steps.
-/

namespace VkCocoon
open Lib Tables

/-- `ipWait` -/
inductive IPWait where
  | clone
  | wake
  | boot
deriving DecidableEq, Repr

/-- What a tail was started with. `resumed` when it holds the resume claim of its key. -/
structure Job where
  pod : Pod
  v : VM
  wait : IPWait
  resumed : Bool
deriving DecidableEq, Repr

inductive TailPC where
  -- runPostCloneSetup
  | markRunning
  | exec (attempt : ℕ) (errs : List String)
  | markDone
  | markExhausted (errs : List String)
  | failExhausted (errs : List String)
  -- runWindowsSAC
  | sac
  | markSAC (err : String)
  | failSAC (err : String)
  /-- `lifecycleAlreadyFailed` -/
  | check
  -- waitForFreshIP: the tracked VM, `resolveVMIP` of it in two steps
  | lookup
  | lease (seen : VM)
  | store (seen : VM) (ip : String)
  -- markReadyAfterIP
  | ready
  | timeout
  /-- the deferred `releaseResume` of a resumed tail -/
  | leave
  | done
deriving DecidableEq, Repr

structure Tail where
  job : Job
  pc : TailPC
deriving DecidableEq, Repr

/-- `attempt %d: %w` -/
def attemptError (attempt : ℕ) (err : String) : String :=
  "attempt " ++ (toString attempt ++ (": " ++ err))

/-- `errors.Join` -/
def joinErrors (errs : List String) : String := "\n".intercalate errs

def ipWaitText : IPWait → String
  | .clone => "clone "
  | .wake => "wake "
  | .boot => "boot "

/-- `ipWaitBudget`, as it is printed. -/
def ipWaitBudget : IPWait → String
  | .boot => "10m0s"
  | _ => "45s"

/-- The failure of a lease wait. -/
def ipWaitTimeout (wait : IPWait) (name : String) : String :=
  ipWaitText wait ++ (name ++ (": dhcp lease not observed within " ++ ipWaitBudget wait))

/-- The first part of `resolveVMIP`: an address, and whether it is still to be stored. A lookup
that fails for another reason than a missing lease leaves the address that is cached; so does a
provider without a lease parser. -/
def World.resolveVMIP (w : World) (seen : VM) (r : Reply) : String × Bool :=
  if seen.networkConfigs.head?.any isStaticNIC || seen.mac == "" || r.err.isSome then (seen.ip, false)
  else
    let ip := (w.leases.get seen.mac).getD ""
    (ip, ip != seen.ip)

namespace Job
variable (job : Job)

/-- The entry of `runPostCloneSetup`. -/
def postClone : TailPC := if postCloneNeeded job.pod.spec job.v then .markRunning else .lookup

/-- The entry of `runReadyWait`, and what follows a fixup that succeeded. -/
def readyWait : TailPC := if job.pod.spec.os = .windows then .sac else .check

/-- A canceled context ends the tail. -/
def unlessCut (w : World) (a : Answer) (pc : TailPC) : TailPC := if w.closed && a.cut then .leave else pc

/-- What `waitForFreshIP` does with the address it has resolved. -/
def resolved (w : World) (a : Answer) (ip : String) : TailPC :=
  unlessCut w a (if ip != "" then .ready else if a.expired then .timeout else .lookup)

def step (w : World) (a : Answer) : TailPC → Option (World × TailPC)
  | .markRunning =>
    some (w.onTables fun t => (t.markPostCloneState job.pod .running).1, .exec 1 [])
  | .exec attempt errs =>
    match a.reply.err with
    | none => some (w, unlessCut w a .markDone)
    | some e =>
      let errs := errs ++ [attemptError attempt e]
      some (w, unlessCut w a (if a.expired then .markExhausted errs else .exec (attempt + 1) errs))
  | .markDone => some (w.onTables fun t => (t.markPostCloneState job.pod .done).1, job.readyWait)
  | .markExhausted errs =>
    some (w.onTables fun t => (t.markPostCloneState job.pod .failed).1, .failExhausted errs)
  | .failExhausted errs =>
    some (w.onTables fun t => (t.applyLifecycleLocked job.pod .failed (joinErrors errs)).1, .leave)
  | .sac =>
    match a.reply.err with
    | some e => some (w, if job.v.networkConfigs.any isStaticNIC then .markSAC e else .check)
    | none => some (w, .check)
  | .markSAC e =>
    some (w.onTables fun t => (t.markPostCloneState job.pod .failed).1, .failSAC e)
  | .failSAC e =>
    some (w.onTables fun t => (t.applyLifecycleLocked job.pod .failed e).1, .leave)
  | .check => some (w, if w.tables.lifecycleAlreadyFailed job.pod then .leave else .lookup)
  | .lookup =>
    match w.tables.vmsByPod.get job.pod.key with
    | some seen => some (w, if seen.id = job.v.id then .lease seen else unlessCut w a .timeout)
    | none => some (w, unlessCut w a .timeout)
  | .lease seen =>
    match w.resolveVMIP seen a.reply with
    | (ip, true) => some (w, .store seen ip)
    | (ip, false) => some (w, resolved w a ip)
  | .store seen ip =>
    match w.tables.updateTrackedVM job.pod.key seen.id (.ip ip) with
    | (t, updated) =>
      some ({ w with tables := t }, resolved w a (if updated.isSome then ip else ""))
  | .ready =>
    some (w.onTables fun t => (t.setLifecycleStateForWake job.pod job.v.id .ready "").1, .leave)
  | .timeout =>
    some (w.onTables fun t => (t.setLifecycleStateForWake job.pod job.v.id .failed
      (ipWaitTimeout job.wait job.v.name)).1, .leave)
  | .leave =>
    some (if job.resumed then w.onTables (·.releaseResume job.pod.key) else w, .done)
  | .done => none

/-- The critical section a step enters. -/
def op : TailPC → Option TableOp
  | .markRunning => some (.markPostCloneState job.pod .running)
  | .markDone => some (.markPostCloneState job.pod .done)
  | .markExhausted _ | .markSAC _ => some (.markPostCloneState job.pod .failed)
  | .failExhausted errs => some (.setLifecycleState job.pod .failed (joinErrors errs))
  | .failSAC e => some (.setLifecycleState job.pod .failed e)
  | .store seen ip => some (.updateTrackedVM job.pod.key seen.id (.ip ip))
  | .ready => some (.setLifecycleStateForWake job.pod job.v.id .ready "")
  | .timeout =>
    some (.setLifecycleStateForWake job.pod job.v.id .failed (ipWaitTimeout job.wait job.v.name))
  | .leave => if job.resumed then some (.releaseResume job.pod.key) else none
  | _ => none

theorem step_tables {S : Type} [DecidableEq S] (snapshot : LifecycleStatus → S) {w w' : World}
    {a : Answer} {pc pc' : TailPC} (h : job.step w a pc = some (w', pc')) :
    w'.tables = w.tables.runOption snapshot (job.op pc) := by
  cases pc with
  | exec attempt errs | sac | lookup | lease seen =>
    simp only [step] at h
    split at h <;> cases h <;> rfl
  | leave =>
    simp only [step] at h
    cases h
    simp only [op]
    split <;> rfl
  | done => cases h
  | _ =>
    cases h
    rfl

end Job
end VkCocoon
