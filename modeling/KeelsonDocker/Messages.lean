import KeelsonDocker.Errors
import KeelsonDocker.Py.Str
import Mathlib.Algebra.Group.Int.Defs
import Mathlib.Data.Rat.Init

/-!
# The messages of `container_control/v1`

`interfaces/ContainerControl.proto`. An `optional` field is an `Option`; a field of 32 or 64 bits is a
`Nat` or an `Int` that the assignment has range-checked (`uint32`, `int32`, `int64`, `uint64` below).
-/

namespace KeelsonDocker

structure Timestamp where
  seconds : Int
  nanos : Int
  deriving DecidableEq, Repr

namespace Timestamp

/-- `Timestamp.FromNanoseconds`. -/
def fromNanoseconds (ns : Int) : Timestamp := ⟨ns / 1000000000, ns % 1000000000⟩

/-- `Timestamp.ToNanoseconds`. -/
def toNanoseconds (ts : Timestamp) : Int := ts.seconds * 1000000000 + ts.nanos

end Timestamp

/-! ### Assignment to a scalar field -/

/-- Assigning an integer outside a field's range raises `ValueError`. -/
def assignInt (low high n : Int) : Except Exn Int :=
  if low ≤ n ∧ n < high then .ok n else .error (.py .valueError)

def uint32 : Int → Except Exn Int := assignInt 0 (2 ^ 32)
def int32 : Int → Except Exn Int := assignInt (-2 ^ 31) (2 ^ 31)
def int64 : Int → Except Exn Int := assignInt (-2 ^ 63) (2 ^ 63)
def uint64 : Int → Except Exn Int := assignInt 0 (2 ^ 64)

theorem assignInt_eq_ok {low high n m : Int} :
    assignInt low high n = .ok m ↔ (low ≤ n ∧ n < high) ∧ m = n := by
  unfold assignInt
  split
  · rename_i hrange
    exact ⟨fun h => ⟨hrange, (Except.ok.inj h).symm⟩, fun h => by rw [h.2]⟩
  · rename_i hrange
    exact iff_of_false (by simp) fun h => hrange h.1

/-! ### Enumerations -/

inductive ContainerState
  | unspecified | created | running | paused | restarting | removing | exited | dead
  deriving DecidableEq, Repr

inductive RestartPolicy
  | unspecified | no | always | unlessStopped | onFailure
  deriving DecidableEq, Repr

inductive HealthStatus
  | unspecified | none | starting | healthy | unhealthy
  deriving DecidableEq, Repr

inductive LogStream
  | unspecified | stdout | stderr
  deriving DecidableEq, Repr

/-- proto3 enumerations are open: a number the schema does not name is kept. -/
inductive LogStreamSelector
  | unspecified | stdout | stderr | both
  | unrecognized (n : Int)
  deriving DecidableEq, Repr

inductive StatusTrigger
  | unspecified | change | heartbeat
  deriving DecidableEq, Repr

/-! ### Messages -/

structure ContainerInfo where
  name : String
  id : String
  image : String
  state : ContainerState
  rawState : String
  createdAt : Option Timestamp
  startedAt : Option Timestamp
  finishedAt : Option Timestamp
  exitCode : Option Int
  restartPolicy : RestartPolicy
  restartPolicyMaxRetries : Int
  restartCount : Int
  health : HealthStatus
  controllable : Bool
  composeProject : String
  composeService : String
  removable : Bool
  deriving DecidableEq, Repr

structure ListContainersRequest where
  runningOnly : Bool
  nameGlob : String

structure ListContainersResponse where
  containers : List ContainerInfo
  observedAt : Timestamp
  controlEnabled : Bool
  removeEnabled : Bool
  deriving DecidableEq, Repr

structure GetLogsRequest where
  name : String
  tailLines : Nat
  since : Option Timestamp
  stream : LogStreamSelector

structure LogLine where
  time : Option Timestamp
  stream : LogStream
  text : String
  deriving DecidableEq, Repr

structure GetLogsResponse where
  name : String
  id : String
  lines : List LogLine
  truncated : Bool
  tailLines : Int
  deriving DecidableEq, Repr

structure StartContainerRequest where
  name : String

structure StopContainerRequest where
  name : String
  timeoutS : Nat

structure RestartContainerRequest where
  name : String
  timeoutS : Nat

structure ContainerActionResponse where
  container : ContainerInfo
  deriving DecidableEq, Repr

structure RemoveContainerRequest where
  name : String
  force : Bool
  removeVolumes : Bool

structure RemoveContainerResponse where
  name : String
  id : String
  forceApplied : Bool
  deriving DecidableEq, Repr

structure ContainerHostStatus where
  containers : List ContainerInfo
  observedAt : Timestamp
  controlEnabled : Bool
  trigger : StatusTrigger
  sequence : Nat
  removeEnabled : Bool
  deriving DecidableEq, Repr

structure ContainerResourceUsage where
  name : String
  id : String
  cpuLoadPct : Option ℚ := none
  onlineCpus : Option Int := none
  memoryUsedBytes : Int
  memoryLimitBytes : Option Int := none
  memoryUsedPct : Option ℚ := none
  networkRxBytes : Option Int := none
  networkTxBytes : Option Int := none
  networkRxBytesPerSecond : Option ℚ := none
  networkTxBytesPerSecond : Option ℚ := none
  blockReadBytes : Option Int := none
  blockWriteBytes : Option Int := none
  blockReadBytesPerSecond : Option ℚ := none
  blockWriteBytesPerSecond : Option ℚ := none
  pidsCurrent : Int
  pidsLimit : Option Int := none
  cpuAllocationCores : Option ℚ := none
  cpuShares : Option Int := none
  cpusetCpus : String
  cpuThrottledPeriods : Option Int := none
  cpuThrottledTimeNs : Option Int := none
  sampleWindowS : Option ℚ := none
  deriving DecidableEq

structure ContainerHostStats where
  containers : List ContainerResourceUsage
  observedAt : Timestamp
  sequence : Nat
  deriving DecidableEq

/-- The protobuf runtime: what `FromString` makes of a payload (an error carries the text of the
`DecodeError`) and what `Timestamp.FromJsonString` makes of a string, `none` for its `ValueError`. -/
structure Protobuf where
  listContainersRequest : Bytes → Except String ListContainersRequest
  getLogsRequest : Bytes → Except String GetLogsRequest
  startContainerRequest : Bytes → Except String StartContainerRequest
  stopContainerRequest : Bytes → Except String StopContainerRequest
  restartContainerRequest : Bytes → Except String RestartContainerRequest
  removeContainerRequest : Bytes → Except String RemoveContainerRequest
  timestampFromJson : String → Option Timestamp

end KeelsonDocker
