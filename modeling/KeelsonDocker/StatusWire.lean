import KeelsonDocker.StatusPublisher
import KeelsonDocker.Theory.Wire

/-!
# What `_digest` hashes

`ContainerInfo` of `interfaces/ContainerControl.proto` as the protobuf runtime holds it: its strings are
valid text, its numbers have the width of their type, its enumerations are open. `digestInput` is what the
hash is fed, one serialized message after the other.
-/

namespace KeelsonDocker.Proto

open Wire

/-- `google.protobuf.Timestamp` -/
structure Timestamp where
  seconds : Int64
  nanos : Int32
  deriving DecidableEq

structure ContainerInfo where
  name : String
  id : String := ""
  image : String := ""
  state : Int32 := 0
  rawState : String := ""
  createdAt : Option Timestamp := none
  startedAt : Option Timestamp := none
  finishedAt : Option Timestamp := none
  exitCode : Option Int32 := none
  restartPolicy : Int32 := 0
  restartPolicyMaxRetries : UInt32 := 0
  restartCount : UInt32 := 0
  health : Int32 := 0
  controllable : Bool := false
  composeProject : String := ""
  composeService : String := ""
  removable : Bool := false
  deriving DecidableEq

namespace Timestamp

def schema : Schema Timestamp :=
  [(1, fun t => implicit 0 ofInt64 t.seconds), (2, fun t => implicit 0 ofInt32 t.nanos)]

end Timestamp

namespace ContainerInfo

def schema : Schema ContainerInfo :=
  [(1, fun i => implicit "" ofString i.name),
   (2, fun i => implicit "" ofString i.id),
   (3, fun i => implicit "" ofString i.image),
   (4, fun i => implicit 0 ofInt32 i.state),
   (5, fun i => implicit "" ofString i.rawState),
   (6, fun i => explicit (ofMessage Timestamp.schema) i.createdAt),
   (7, fun i => explicit (ofMessage Timestamp.schema) i.startedAt),
   (8, fun i => explicit (ofMessage Timestamp.schema) i.finishedAt),
   (9, fun i => explicit ofInt32 i.exitCode),
   (10, fun i => implicit 0 ofInt32 i.restartPolicy),
   (11, fun i => implicit 0 ofUInt32 i.restartPolicyMaxRetries),
   (12, fun i => implicit 0 ofUInt32 i.restartCount),
   (13, fun i => implicit 0 ofInt32 i.health),
   (14, fun i => implicit false ofBool i.controllable),
   (15, fun i => implicit "" ofString i.composeProject),
   (16, fun i => implicit "" ofString i.composeService),
   (17, fun i => implicit false ofBool i.removable)]

/-- `SerializeToString(deterministic=True)` -/
def serializeToString (info : ContainerInfo) : Bytes := serialize schema info

end ContainerInfo

/-- What the calls of `h.update` add up to. -/
def digestInput (infos : List ContainerInfo) : Bytes :=
  infos.flatMap ContainerInfo.serializeToString

end KeelsonDocker.Proto

namespace KeelsonDocker

/-! ### The messages of the model -/

def ContainerState.number : ContainerState → Int32
  | unspecified => 0
  | created => 1
  | running => 2
  | paused => 3
  | restarting => 4
  | removing => 5
  | exited => 6
  | dead => 7

def RestartPolicy.number : RestartPolicy → Int32
  | unspecified => 0
  | no => 1
  | always => 2
  | unlessStopped => 3
  | onFailure => 4

def HealthStatus.number : HealthStatus → Int32
  | unspecified => 0
  | none => 1
  | starting => 2
  | healthy => 3
  | unhealthy => 4

def Timestamp.proto (t : Timestamp) : Proto.Timestamp where
  seconds := .ofInt t.seconds
  nanos := .ofInt t.nanos

def ContainerInfo.proto (i : ContainerInfo) : Proto.ContainerInfo where
  name := i.name
  id := i.id
  image := i.image
  state := i.state.number
  rawState := i.rawState
  createdAt := i.createdAt.map Timestamp.proto
  startedAt := i.startedAt.map Timestamp.proto
  finishedAt := i.finishedAt.map Timestamp.proto
  exitCode := i.exitCode.map Int32.ofInt
  restartPolicy := i.restartPolicy.number
  restartPolicyMaxRetries := .ofNat i.restartPolicyMaxRetries.toNat
  restartCount := .ofNat i.restartCount.toNat
  health := i.health.number
  controllable := i.controllable
  composeProject := i.composeProject
  composeService := i.composeService
  removable := i.removable

namespace ContainerStatusPublisher

/-- `_digest`, over a hash of bytes. -/
def digestWith (hash : Bytes → δ) (infos : List ContainerInfo) : δ :=
  hash (Proto.digestInput (infos.map ContainerInfo.proto))

end ContainerStatusPublisher

end KeelsonDocker
