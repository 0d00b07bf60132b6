import KeelsonDocker.Backend
import KeelsonDocker.Guard

/-!
# `handlers.py`: the six procedures of `container_control/v1`

A handler takes the request's bytes and runs in `Proc σ`; `guarded` turns a `BackendError` into the
typed reply it stands for and lets everything else through to `serve_rpc`.
-/

namespace KeelsonDocker

structure Limits where
  stopTimeoutS : Int := 10
  defaultTailLines : Int := 200
  maxTailLines : Int := 5000
  maxLogBytes : Int := 1000000

structure Context (σ : Type) where
  backend : Engine σ
  guard : ControlGuard
  limits : Limits := {}
  pb : Protobuf

variable {σ : Type}

def replyOk (response : Response) : Proc σ Unit := fun w => .ok () (w.answer (.ok response))

def replyErr (description : String) (code : Code) : Proc σ Unit :=
  fun w => .ok () (w.answer (.err description code))

def timeNs : Proc σ Int := fun w => .ok w.timeNs w

/-- Decode a request, or raise the `INVALID_ARGUMENT` the caller should see. -/
def parse (requestCls : String) (decoded : Except String α) : Proc σ α :=
  match decoded with
  | .ok req => pure req
  | .error exc =>
    throw (.backend .invalidArgument ("could not decode " ++ requestCls ++ ": " ++ exc))

def requireName (name : String) : Proc σ String :=
  if name = "" then
    throw (.backend .invalidArgument ("request is missing the container name (containers are " ++
      "addressed by name, not id -- the id changes on every recreate)"))
  else pure name

/-- `sorted(snapshots, key=lambda s: s.name)`. -/
def sortByName (snapshots : List ContainerSnapshot) : List ContainerSnapshot :=
  snapshots.insertionSort (·.name ≤ ·.name)

/-- `_info`: one snapshot as the wire message, with the two flags the guard gives it. -/
def info (ctx : Context σ) (snapshot : ContainerSnapshot) : Except Exn ContainerInfo :=
  buildContainerInfo ctx.pb snapshot (ctx.guard.controllable snapshot.name snapshot.id)
    (ctx.guard.removable snapshot.name snapshot.id)

def handleList (ctx : Context σ) (raw : Bytes) : Proc σ Unit := do
  let req ← parse "ListContainersRequest" (ctx.pb.listContainersRequest raw)
  let snapshots ← DockerBackend.list ctx.backend req.runningOnly
  let snapshots :=
    if req.nameGlob ≠ "" then snapshots.filter (fnmatchcase ·.name req.nameGlob) else snapshots
  let observedAt := Timestamp.fromNanoseconds (← timeNs)
  let containers ← ofExcept ((sortByName snapshots).mapM (info ctx))
  replyOk (.list {
    containers, observedAt
    controlEnabled := ctx.guard.controlEnabled
    removeEnabled := ctx.guard.removeEnabled })

/-- Oversize is clamped and reported back, not rejected. -/
def effectiveTail (limits : Limits) (tailLines : Nat) : Int :=
  min (if tailLines ≠ 0 then tailLines else limits.defaultTailLines) limits.maxTailLines

def wantStdout (selector : LogStreamSelector) : Bool :=
  selector ∈ [.unspecified, .both, .stdout]

def wantStderr (selector : LogStreamSelector) : Bool :=
  selector ∈ [.unspecified, .both, .stderr]

/-- The reply to a log request, from what the backend returned. -/
def logsResponse (ctx : Context σ) (tail : Int) (out err : Bytes) (tty : Bool)
    (snapshot : ContainerSnapshot) : Except Exn GetLogsResponse := do
  let lines :=
    -- The runtime merged the streams before we ever saw them.
    if tty then parseLogStream ctx.pb out .unspecified
    else mergeLogLines (parseLogStream ctx.pb out .stdout) (parseLogStream ctx.pb err .stderr)
  let capped := capLogLines lines tail ctx.limits.maxLogBytes
  let tailLines ← uint32 tail
  return { name := snapshot.name, id := snapshot.id, lines := capped.1, truncated := capped.2, tailLines }

def handleLogs (ctx : Context σ) (raw : Bytes) : Proc σ Unit := do
  let req ← parse "GetLogsRequest" (ctx.pb.getLogsRequest raw)
  let name ← requireName req.name
  let tail := effectiveTail ctx.limits req.tailLines
  let since := req.since.map (·.seconds)
  let (out, err, tty, snapshot) ← DockerBackend.logs ctx.backend name tail since
    (wantStdout req.stream) (wantStderr req.stream)
  let response ← ofExcept (logsResponse ctx tail out err tty snapshot)
  replyOk (.logs response)

/-- The two fields an action reads; a start request has no `timeout_s`. -/
structure ActionRequest where
  name : String
  timeoutS : Nat := 0

def actionCls : Verb → String
  | .start => "StartContainerRequest"
  | .stop => "StopContainerRequest"
  | .restart => "RestartContainerRequest"

def actionRequest (pb : Protobuf) (verb : Verb) (raw : Bytes) : Except String ActionRequest :=
  match verb with
  | .start => (pb.startContainerRequest raw).map fun r => { name := r.name }
  | .stop => (pb.stopContainerRequest raw).map fun r => { name := r.name, timeoutS := r.timeoutS }
  | .restart =>
    (pb.restartContainerRequest raw).map fun r => { name := r.name, timeoutS := r.timeoutS }

def handleAction (verb : Verb) (ctx : Context σ) (raw : Bytes) : Proc σ Unit := do
  let req ← parse (actionCls verb) (actionRequest ctx.pb verb raw)
  let name ← requireName req.name
  -- Decided before the container is looked up, on the request's string alone.
  let decision := ctx.guard.decide name "" verb.name
  if !decision.allowed then replyErr decision.reason decision.code
  else
    let timeout : Int := if req.timeoutS ≠ 0 then req.timeoutS else ctx.limits.stopTimeoutS
    let snapshot ← DockerBackend.perform ctx.backend verb name timeout
    let container ← ofExcept (info ctx snapshot)
    replyOk (.action { container })

def handleRemove (ctx : Context σ) (raw : Bytes) : Proc σ Unit := do
  let req ← parse "RemoveContainerRequest" (ctx.pb.removeContainerRequest raw)
  let name ← requireName req.name
  let decision := ctx.guard.decideRemove name
  if !decision.allowed then replyErr decision.reason decision.code
  else
    let (snapshot, wasRunning) ←
      DockerBackend.remove ctx.backend name req.force req.removeVolumes
    replyOk (.remove { name := snapshot.name, id := snapshot.id, forceApplied := wasRunning })

/-- `_guarded`: anything but a `BackendError` is left to propagate. -/
def guarded (handler : Bytes → Proc σ Unit) (raw : Bytes) : Proc σ Unit :=
  tryCatch (handler raw) fun
    | .backend code message => replyErr message code
    | e => throw e

inductive Procedure
  | list | logs | start | stop | restart | remove
  deriving DecidableEq, Repr

/-- `build`: the handler that `serve_rpc` gets for each procedure. -/
def build (ctx : Context σ) : Procedure → Bytes → Proc σ Unit
  | .list => guarded (handleList ctx)
  | .logs => guarded (handleLogs ctx)
  | .start => guarded (handleAction .start ctx)
  | .stop => guarded (handleAction .stop ctx)
  | .restart => guarded (handleAction .restart ctx)
  | .remove => guarded (handleRemove ctx)

end KeelsonDocker
