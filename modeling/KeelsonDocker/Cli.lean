import KeelsonDocker.AppRun
import KeelsonDocker.Handlers

/-!
# `cli.py`: the command-line client

`main` sends one query and prints what the reply says, or ends with what the error says. `CliHost` is what
it calls outside the package: the session, with everything beyond it in a state `W`, and the protobuf
runtime.
-/

namespace KeelsonDocker

/-- What `cli.py` serializes, and reads back. -/
structure ClientProtobuf where
  listContainersRequest : ListContainersRequest → Bytes
  getLogsRequest : GetLogsRequest → Bytes
  startContainerRequest : StartContainerRequest → Bytes
  stopContainerRequest : StopContainerRequest → Bytes
  restartContainerRequest : RestartContainerRequest → Bytes
  removeContainerRequest : RemoveContainerRequest → Bytes
  listContainersResponse : Bytes → Except String ListContainersResponse
  getLogsResponse : Bytes → Except String GetLogsResponse
  containerActionResponse : Bytes → Except String ContainerActionResponse
  removeContainerResponse : Bytes → Except String RemoveContainerResponse
  /-- `ErrorResponse.FromString`: the number of the code, and the description. -/
  errorResponse : Bytes → Except String (Int × String)
  /-- `ErrorResponse.Code.Name`, `none` for its `ValueError` -/
  codeName : Int → Option String
  /-- `ToDatetime().isoformat(sep=" ", timespec="seconds")` -/
  isoformat : Timestamp → Except Exn String

/-- A reply as the session hands it over, with its payload. -/
inductive QueryReply
  | ok (payload : Bytes)
  | err (payload : Bytes)

/-- What `construct_rpc_key` puts into a key. -/
structure RpcKey where
  realm : String
  entityId : String
  procedure : Procedure
  sourceId : String

structure CliHost (W : Type) where
  pb : ClientProtobuf
  /-- The key as text, under the interface and its version. -/
  keyText : RpcKey → String
  openSession : Except Exn Unit
  /-- `session.get`: the replies that come in before the timeout. -/
  get : RpcKey → Bytes → W → List QueryReply × W

/-- The choices of `--stream` -/
inductive StreamChoice
  | both | stdout | stderr
  deriving DecidableEq, Repr

/-- `_STREAMS` -/
def StreamChoice.selector : StreamChoice → LogStreamSelector
  | both => .both
  | stdout => .stdout
  | stderr => .stderr

inductive Command
  | list (runningOnly : Bool) (nameGlob : String)
  | logs (name : String) (tail : Int) (stream : StreamChoice)
  | start (name : String)
  | stop (name : String) (timeoutS : Int)
  | restart (name : String) (timeoutS : Int)
  | remove (name : String) (force volumes : Bool)
  deriving DecidableEq, Repr

structure CliArgs where
  realm : String
  entityId : String
  sourceId : String
  /-- The number of seconds as it is printed; what it bounds is the session's affair. -/
  timeout : String := "30.0"
  command : Command

structure CliWorld (W : Type) where
  beyond : W
  stdout : List String := []

abbrev Cli (W : Type) := EStateM AppExn (CliWorld W)

namespace Cli

variable {W : Type}

def print (text : String) : Cli W Unit := modify fun w => { w with stdout := w.stdout ++ [text] }

def lift : Except Exn α → Cli W α
  | .ok a => pure a
  | .error e => throw (.raised e)

/-- `describe_error`: not every error reply is one of the responder's. -/
def describeError (pb : ClientProtobuf) (raw : Bytes) : String :=
  let transport := "ERROR (transport): " ++ decodeReplace raw
  match pb.errorResponse raw with
  | .error _ => transport
  | .ok (code, description) =>
    match pb.codeName code with
    | some name => "ERROR " ++ name ++ ": " ++ description
    | none => transport

/-- `_fmt_time` -/
def fmtTime (pb : ClientProtobuf) : Option Timestamp → Cli W String
  | none => pure "-"
  | some stamp => lift (pb.isoformat stamp)

/-- `f"{s:<width}"` -/
def ljust (width : Nat) (s : String) : String :=
  s ++ String.ofList (List.replicate (width - s.length) ' ')

/-- `ContainerState.Name` -/
def stateName : ContainerState → String
  | .unspecified => "CONTAINER_STATE_UNSPECIFIED"
  | .created => "CONTAINER_STATE_CREATED"
  | .running => "CONTAINER_STATE_RUNNING"
  | .paused => "CONTAINER_STATE_PAUSED"
  | .restarting => "CONTAINER_STATE_RESTARTING"
  | .removing => "CONTAINER_STATE_REMOVING"
  | .exited => "CONTAINER_STATE_EXITED"
  | .dead => "CONTAINER_STATE_DEAD"

/-- The name of a state, without its prefix and in lower case. -/
def stateWord (state : ContainerState) : String :=
  lower (String.ofList ((stateName state).toList.drop "CONTAINER_STATE_".length))

def yesNo (b : Bool) : String := if b then "yes" else "no"

/-- A line of the table, its last column as long as it comes. -/
def row (name state ctrl rm started image : String) : String :=
  ljust 34 name ++ " " ++ ljust 12 state ++ " " ++ ljust 5 ctrl ++ " " ++ ljust 5 rm ++ " " ++
    ljust 20 started ++ " " ++ image

def tableHeader : String := row "NAME" "STATE" "CTRL" "RM" "STARTED" "IMAGE"

variable (pb : ClientProtobuf)

def printContainers (response : ListContainersResponse) : Cli W Unit := do
  if !response.controlEnabled then
    print "responder is READ-ONLY (start/stop/restart will be refused)\n"
  else if !response.removeEnabled then
    print "responder allows start/stop/restart but NOT remove\n"
  print tableHeader
  print (String.ofList (List.replicate tableHeader.length '-'))
  for c in response.containers do
    let started ← fmtTime pb c.startedAt
    print (row c.name (stateWord c.state) (yesNo c.controllable) (yesNo c.removable) started c.image)
  print ("\n" ++ toString response.containers.length ++ " container(s)")

def printLogs (response : GetLogsResponse) : Cli W Unit := do
  if response.truncated then
    print ("[... older lines dropped; showing the last " ++ toString response.lines.length ++ " ...]")
  for entry in response.lines do
    let stamp ← fmtTime pb entry.time
    let tag := if entry.stream = .stderr then "E" else " "
    print (stamp ++ " " ++ tag ++ " " ++ entry.text)

/-- What `print_action` prints. -/
def actionLine (verb : Verb) (response : ContainerActionResponse) : String :=
  let c := response.container
  verb.name ++ " " ++ c.name ++ ": now " ++ stateWord c.state ++ " (restart_count=" ++
    toString c.restartCount ++ ")"

/-- What `print_remove` prints. -/
def removeLine (response : RemoveContainerResponse) : String :=
  let killed := if response.forceApplied then " (was running; force killed it)" else ""
  "removed " ++ response.name ++ ": id " ++ String.ofList (response.id.toList.take 12) ++
    " is gone" ++ killed

variable (host : CliHost W) (args : CliArgs)

/-- `FromString`, whose `DecodeError` is left to propagate. -/
def decoded : Except String α → Cli W α
  | .ok a => pure a
  | .error e => throw (.raised (.other e))

/-- The first reply counts. -/
def firstReply (key : RpcKey) (fromString : Bytes → Except String α) : List QueryReply → Cli W α
  | .ok raw :: _ => decoded (fromString raw)
  | .err raw :: _ => throw (.exit (describeError host.pb raw))
  | [] => throw (.exit ("No reply from " ++ (host.keyText key ++ " within " ++ args.timeout ++
      "s -- is the responder running?")))

/-- `call` -/
def call (procedure : Procedure) (payload : Bytes) (fromString : Bytes → Except String α) : Cli W α := do
  let key : RpcKey := { args with procedure }
  let world ← get
  let (replies, beyond) := host.get key payload world.beyond
  set { world with beyond }
  firstReply host args key fromString replies

/-- The action verbs of `main`. -/
def action (verb : Verb) (payload : Bytes) : Cli W Unit := do
  let procedure := match verb with
    | .start => .start
    | .stop => .stop
    | .restart => .restart
  let response ← call host args procedure payload host.pb.containerActionResponse
  print (actionLine verb response)

def main : Cli W Unit := do
  lift host.openSession
  match args.command with
  | .list runningOnly nameGlob =>
    let response ← call host args .list (host.pb.listContainersRequest { runningOnly, nameGlob })
      host.pb.listContainersResponse
    printContainers host.pb response
  | .logs name tail stream =>
    let tailLines ← lift (uint32 tail)
    let payload := host.pb.getLogsRequest
      { name, tailLines := tailLines.toNat, since := none, stream := stream.selector }
    let response ← call host args .logs payload host.pb.getLogsResponse
    printLogs host.pb response
  | .remove name force volumes =>
    let response ← call host args .remove
      (host.pb.removeContainerRequest { name, force, removeVolumes := volumes })
      host.pb.removeContainerResponse
    print (removeLine response)
  | .start name => action host args .start (host.pb.startContainerRequest { name })
  | .stop name timeoutS =>
    let timeoutS ← lift (uint32 timeoutS)
    action host args .stop (host.pb.stopContainerRequest { name, timeoutS := timeoutS.toNat })
  | .restart name timeoutS =>
    let timeoutS ← lift (uint32 timeoutS)
    action host args .restart (host.pb.restartContainerRequest { name, timeoutS := timeoutS.toNat })

end Cli

end KeelsonDocker
