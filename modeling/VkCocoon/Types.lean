import Mathlib.Algebra.Order.Ring.Int

/-!
# The data the provider works on

Pods and VM records as the provider sees them. `meta.*` of cocoon-common decodes
a pod's annotations; the fields below are the decoded values. A Go pointer is
modelled by its identity: `Pod.ref` and `VM.addr` tell two objects apart that
carry the same data, which is what the pointer comparisons of the source do.
-/

namespace VkCocoon

/-- `meta.PodKey(namespace, name)`. -/
abbrev Key := String
abbrev UID := String
abbrev VMID := String

/-- `meta.LifecycleState`; `other` is any text an annotation may carry besides these. -/
inductive LifecycleState where
  | creating
  | ready
  | hibernating
  | hibernated
  | failed
  | other (text : String)
deriving DecidableEq, Repr

structure LifecycleStatus where
  state : LifecycleState
  observedGeneration : ℤ
  message : String
deriving DecidableEq, Repr

/-- `lifecycleEntry`. `flushed` is the status whose `Snapshot()` was recorded, `none` for `""`. -/
structure LifecycleEntry where
  uid : UID
  status : LifecycleStatus
  flushed : Option LifecycleStatus
deriving DecidableEq, Repr

inductive GuestOS where
  | windows
  | macos
  | other (text : String)
deriving DecidableEq, Repr

inductive Backend where
  | cloudHypervisor
  | firecracker
  | other (text : String)
deriving DecidableEq, Repr

/-- The part of `meta.VMSpec` the modelled functions read. -/
structure VMSpec where
  vmName : String
  managed : Bool
  os : GuestOS
  backend : Backend
deriving DecidableEq, Repr

/-- `annotationPostCloneState`. -/
inductive PostCloneState where
  | absent
  | running
  | done
  | failed
  | other (text : String)
deriving DecidableEq, Repr

structure Pod where
  ref : ℕ
  key : Key
  uid : UID
  deletionTimestamp : Bool
  /-- `meta.ReadCocoonSetGeneration` -/
  generation : ℤ
  spec : VMSpec
  /-- `meta.ReadHibernateState` -/
  hibernate : Bool
  /-- `meta.ReadLifecycleStatus`, `none` while the state annotation is empty -/
  lifecycle : Option LifecycleStatus
  postClone : PostCloneState
  vmid : VMID
  ip : String
  /-- `pendingSnapshotRef` -/
  pendingSnapshotRef : String
  /-- `strings.ToLower(spec.Mode) == run` -/
  modeRun : Bool
  /-- `hasExplicitCloneSource` -/
  cloneSource : Bool
  /-- `meta.ReadRestoreFromHibernate` -/
  restoreFromHibernate : Bool
deriving DecidableEq, Repr

inductive VMState where
  | running
  | creating
  | created
  | other (text : String)
deriving DecidableEq, Repr

structure NetworkConfig where
  mac : String
  /-- `Network.IP`, `none` when `Network` is nil -/
  networkIP : Option String
deriving DecidableEq, Repr

/-- The part of `vm.VM` the modelled functions read. -/
structure VM where
  addr : ℕ
  id : VMID
  name : String
  hypervisor : String
  state : VMState
  ip : String
  mac : String
  pid : ℤ
  networkConfigs : List NetworkConfig
deriving DecidableEq, Repr

/-- `status.Apply(pod)` -/
def LifecycleStatus.apply (s : LifecycleStatus) (pod : Pod) : Pod := { pod with lifecycle := some s }

def lifecyclePatchAttempts : ℕ := 3

/-- `strings.ToLower`, used on modes, MAC addresses and tool output, which are ASCII. -/
def toLower (s : String) : String := String.ofList (s.toList.map Char.toLower)

def macosHypervisor : String := "qemu"

def macosVMIDPrefix : String := macosHypervisor ++ "-"

def macosVMID (vmName : String) : VMID := macosVMIDPrefix ++ vmName

def isMacosVM (v : VM) : Bool := v.hypervisor == macosHypervisor

def isMacosSpec (spec : VMSpec) : Bool := spec.managed && spec.os == .macos

def isStaticNIC (nc : NetworkConfig) : Bool := nc.networkIP.any (· != "")

def postCloneNeeded (spec : VMSpec) (v : VM) : Bool :=
  spec.os == .windows || spec.backend == .firecracker || v.networkConfigs.any isStaticNIC

def shouldDropNICBeforeHibernate (spec : VMSpec) : Bool :=
  spec.backend == .cloudHypervisor && spec.os == .windows

def isClonedBoot (pod : Pod) : Bool := pod.spec.managed && (pod.cloneSource || !pod.modeRun)

def hibernateSnapshotTag : String := "hibernate"

def forkSnapshotName (sourceVMName : String) : String := "fork-" ++ sourceVMName

def hibernateFailurePrefix : String := "hibernate: "

/-- `strings.HasPrefix(message, hibernateFailurePrefix)` -/
def hasHibernateFailurePrefix (message : String) : Bool :=
  hibernateFailurePrefix.toList.isPrefixOf message.toList

/- A managed Linux pod and its VM, for the runs on concrete tables. -/
def samplePod : Pod where
  ref := 0
  key := "ns/a"
  uid := "u"
  deletionTimestamp := false
  generation := 3
  spec := ⟨"vk-a", true, .other "linux", .cloudHypervisor⟩
  hibernate := false
  lifecycle := none
  postClone := .absent
  vmid := ""
  ip := ""
  pendingSnapshotRef := ""
  modeRun := true
  cloneSource := false
  restoreFromHibernate := false

def sampleVM : VM where
  addr := 0
  id := "vm1"
  name := "vk-a"
  hypervisor := "cloud-hypervisor"
  state := .running
  ip := ""
  mac := "52:54:00:00:00:01"
  pid := 100
  networkConfigs := [⟨"52:54:00:00:00:01", none⟩]

end VkCocoon
