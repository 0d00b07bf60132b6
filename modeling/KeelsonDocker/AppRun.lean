import KeelsonDocker.App
import KeelsonDocker.PlatformGuard
import KeelsonDocker.Theory.Scope

/-!
# `app.py`: from the flags to a running responder

`main` checks the flags, reaches the daemon, assembles the guards, and opens the session; `run` announces
what is published, serves the interfaces and holds the publishers until it is asked to stop. Everything
the process does to the bus is an event of its trace. The SDK, the session and the threads are in
`AppHost`: each call returns or raises.
-/

namespace KeelsonDocker

/-- The flags `main` and what it calls read. -/
structure AppArgs extends Args where
  realm : String
  entityId : String
  sourceId : String
  publishStatus : Bool := true
  statusIntervalS : ℚ := 5
  statusHeartbeatS : ℚ := 30
  publishStats : List String := []
  statsIntervalS : ℚ := 10
  followLogs : List String := []
  followRescanS : ℚ := 10
  followMaxLinesPerS : Int := 200
  followQueueSize : Int := 10000
  followTail : Int := 0
  platformsRoot : Option String := none
  allowWrite : Bool := false
  allowPath : List String := []
  allowDelete : List String := []
  allowGit : Bool := false
  allowPush : Bool := false
  stopTimeoutS : Int := 10
  defaultTailLines : Int := 200
  maxTailLines : Int := 5000
  maxLogBytes : Int := 1000000

/-- What ends the process. -/
inductive AppExn
  /-- `parser.error` -/
  | usage (message : String)
  /-- `sys.exit` with a message -/
  | exit (message : String)
  | keyboardInterrupt
  | raised (e : Exn)
  deriving DecidableEq, Repr

/-- What `run` enters into its stack: the publishers with what they are made with. -/
inductive Publisher
  | status (intervalS heartbeatS : ℚ)
  | stats (globs : List String) (intervalS : ℚ)
  | logs (globs : List String) (rescanS : ℚ) (maxLinesPerS queueSize tail : Int)
  deriving DecidableEq

/-- `SUBJECT` of its module -/
def Publisher.subject : Publisher → String
  | status .. => "container_status"
  | stats .. => "container_stats"
  | logs .. => "log_message"

/-- A line of the log of the process: `logger.warning`, or `logger.info`. -/
structure Notice where
  warning : Bool := false
  text : String
  deriving DecidableEq

inductive AppEvent
  | opened
  /-- The liveliness tokens are declared. -/
  | announced (subjects : List String)
  | servedControl (guard : ControlGuard) (limits : Limits)
  | servedPlatform (root : String) (guard : FileGuard)
  | started (publisher : Publisher)
  | stopped (publisher : Publisher)
  | retracted
  /-- The session is closed, and with it the queryables of `serve_rpc`. -/
  | closed
  | logged (notice : Notice)

/-- What the process runs on. -/
structure AppHost (σ : Type) where
  engine : Engine σ
  /-- `client.ping()` -/
  ping : σ → Except Exn Unit
  proc : ProcSelf
  daemon : σ
  /-- `str(Path(root))` -/
  pathText : String → String
  /-- `(Path(root) / ".git").is_dir()` -/
  holdsGit : String → Bool
  openSession : Except AppExn Unit
  closeSession : Except AppExn Unit
  declareLiveliness : List String → Except AppExn Unit
  retractLiveliness : Except AppExn Unit
  serveRpc : (interface : String) → Except AppExn Unit
  start : Publisher → Except AppExn Unit
  stop : Publisher → Except AppExn Unit
  /-- `GracefulShutdown`: waiting until it is asked to stop. -/
  hold : Except AppExn Unit
  /-- `construct_rpc_key`, for any procedure of `container_control/v1`. -/
  rpcKey : String
  /-- `construct_pubsub_key` -/
  pubsubKey : (subject : String) → String

/-- The trace is kept whatever is raised. -/
abbrev App := EStateM AppExn (List AppEvent)

namespace App

open Scope

def lift : Except AppExn Unit → App Unit
  | .ok () => pure ()
  | .error e => throw e

def emit (event : AppEvent) : App Unit := modify (· ++ [event])

def log (notices : List Notice) : App Unit := notices.forM fun notice => emit (.logged notice)

/-! ### The checks of `main` -/

/-- `if bad: parser.error(message)` -/
def refuse (bad : Bool) (message : String) : Except AppExn Unit :=
  if bad then .error (.usage message) else .ok ()

/-- A path that was given and is not empty. -/
def rootOf (args : AppArgs) : Option String := args.platformsRoot.filter (· ≠ "")

/-- `getattr(args, flag)`, for the flags that need a checkout. -/
def platformFlags (args : AppArgs) : List (String × Bool) :=
  [("allow_write", args.allowWrite), ("allow_path", !args.allowPath.isEmpty),
   ("allow_delete", !args.allowDelete.isEmpty), ("allow_git", args.allowGit),
   ("allow_push", args.allowPush)]

/-- `flag.replace('_', '-')` -/
def dashed (flag : String) : String :=
  String.ofList (flag.toList.map fun c => if c = '_' then '-' else c)

/-- `if not args.platforms_root:` -/
def checkRoot (args : AppArgs) : Except AppExn Unit :=
  if rootOf args = none then
    (platformFlags args).forM fun flag =>
      refuse flag.2 ("--" ++ dashed flag.1 ++ " requires --platforms-root")
  else .ok ()

def checkArgs (args : AppArgs) : Except AppExn Unit := do
  refuse (args.allowControl && args.allow.isEmpty) "--allow-control requires at least one --allow GLOB"
  refuse (!args.allowRemove.isEmpty && !args.allowControl) "--allow-remove requires --allow-control"
  checkRoot args
  refuse (args.allowWrite && args.allowPath.isEmpty)
    "--allow-write requires at least one --allow-path GLOB"
  refuse (!args.allowDelete.isEmpty && !args.allowWrite) "--allow-delete requires --allow-write"
  refuse (args.allowGit && !args.allowWrite)
    "--allow-git requires --allow-write (there is nothing to commit otherwise)"
  refuse (args.allowPush && !args.allowGit) "--allow-push requires --allow-git"

/-! ### What is assembled from the flags -/

/-- Every gate is off by default. -/
def buildFileGuard (args : AppArgs) : FileGuard where
  writeEnabled := args.allowWrite
  writeGlobs := args.allowPath
  deleteGlobs := args.allowDelete
  gitEnabled := args.allowGit
  pushEnabled := args.allowPush

def limits (args : AppArgs) : Limits where
  stopTimeoutS := args.stopTimeoutS
  defaultTailLines := args.defaultTailLines
  maxTailLines := args.maxTailLines
  maxLogBytes := args.maxLogBytes

/-- `published_subjects`: a token for each subject, and only when it is published. -/
def publishedSubjects (args : AppArgs) : List String :=
  (if args.publishStatus then ["container_status"] else []) ++
  (if args.publishStats.isEmpty then [] else ["container_stats"]) ++
  (if args.followLogs.isEmpty then [] else ["log_message"])

/-- What is entered into the stack, in this order. -/
def publishers (args : AppArgs) : List Publisher :=
  (if args.publishStatus then [.status args.statusIntervalS args.statusHeartbeatS] else []) ++
  (if args.publishStats.isEmpty then [] else [.stats args.publishStats args.statsIntervalS]) ++
  (if args.followLogs.isEmpty then []
    else [.logs args.followLogs args.followRescanS args.followMaxLinesPerS args.followQueueSize
      args.followTail])

end App

namespace AppHost

open App Scope

variable {σ : Type} (host : AppHost σ)

/-- `ping`: `DockerException`s become the code the caller will see. -/
def pingBackend : Except Exn Unit := do
  outcome (DockerBackend.client host.engine) host.daemon
  match host.ping host.daemon with
  | .error (.docker _ text) =>
    throw (.backend .unavailable ("cannot reach the container runtime: " ++ text))
  | result => result

/-- `zenoh.open` -/
def session : Manager AppExn (List AppEvent) where
  enter := do
    lift host.openSession
    emit .opened
  exit := do
    emit .closed
    lift host.closeSession

/-- `declare_liveliness` -/
def liveliness (subjects : List String) : Manager AppExn (List AppEvent) where
  enter := do
    lift (host.declareLiveliness subjects)
    emit (.announced subjects)
  exit := do
    emit .retracted
    lift host.retractLiveliness

/-- A publisher: entering starts its threads, leaving stops them. -/
def publisher (p : Publisher) : Manager AppExn (List AppEvent) where
  enter := do
    lift (host.start p)
    emit (.started p)
  exit := do
    emit (.stopped p)
    lift (host.stop p)

/-- What `_log_addresses` says. -/
def addressLines (subjects : List String) : List Notice :=
  [{ text := "Serving container_control/v1 at " ++ host.rpcKey }] ++
  subjects.map (fun subject =>
    { text := "Publishing " ++ subject ++ " at " ++ host.pubsubKey subject }) ++
  (if subjects.isEmpty then
    [{ warning := true
       text := "Publishing nothing. This host is then discoverable ONLY by its RPC liveliness token " ++
         "or by being written into a console's registry by hand, and a token that fails to propagate " ++
         "is invisible. --publish-status is on by default; something turned it off." }]
  else [])

/-- What `_serve_platform_config` says of the gates. -/
def fileGateLines (guard : FileGuard) : List Notice :=
  [if guard.writeEnabled then
    { warning := true
      text := "Platform config WRITING is ENABLED for paths matching: " ++
        ", ".intercalate guard.writeGlobs }
  else { text := "Platform config is read-only. Pass --allow-write with --allow-path to edit." }] ++
  (if guard.deleteEnabled then
    [{ warning := true
       text := "Platform config DELETION is ENABLED for paths matching: " ++
         ", ".intercalate guard.deleteGlobs ++ " -- these files can be removed over the bus, and no " ++
         "other procedure undoes that." }]
  else []) ++
  (if guard.pushEnabled then
    [{ warning := true
       text := "Platform config PUSH is ENABLED: commits made here are published to the repository " ++
         "every other platform pulls its configuration from." }]
  else if guard.gitEnabled then [{ text := "Commits stay on this host; --allow-push is not set." }]
  else [])

/-- `_serve_platform_config`: only where there is a checkout. -/
def servePlatformConfig (args : AppArgs) : App Unit :=
  match rootOf args with
  | none => pure ()
  | some root =>
    if host.holdsGit root then do
      lift (host.serveRpc "platform_config")
      emit (.servedPlatform root (buildFileGuard args))
      log [{ text := "Serving platform_config/v1 at " ++ args.realm ++ "/@v0/" ++ args.entityId ++
        "/@rpc/platform_config/v1/*/" ++ args.sourceId ++ " (root: " ++ host.pathText root ++ ")" }]
      log (fileGateLines (buildFileGuard args))
    else
      throw (.exit ("--platforms-root " ++ host.pathText root ++ " is not a git repository.\n" ++
        "It must be a checkout of RISE-Maritime/keelson-platforms: the interface reports branch, " ++
        "divergence and dirty paths, none of which exist without one."))

/-- What `run` says of the gates. -/
def gateLines (guard : ControlGuard) : List Notice :=
  [if guard.controlEnabled then
    { warning := true
      text := "Container control is ENABLED for names matching: " ++ ", ".intercalate guard.allowGlobs }
  else
    { text := "Read-only: start/stop/restart will reply PERMISSION_DENIED. Pass --allow-control with " ++
        "one or more --allow GLOB to enable them." },
  if guard.removeEnabled then
    { warning := true
      text := "Container REMOVAL is ENABLED for names matching: " ++
        ", ".intercalate guard.removeGlobs ++ " -- these can be deleted over the bus, and no other " ++
        "procedure undoes that." }
  else
    { text := "Removal is off: remove will reply PERMISSION_DENIED. Pass --allow-remove GLOB (with " ++
        "--allow-control) to enable it." }]

/-- The publishers run inside the liveliness context: the token is up before the first message. -/
def run (args : AppArgs) (guard : ControlGuard) : App Unit := do
  let subjects := publishedSubjects args
  log (host.addressLines subjects)
  (host.liveliness subjects).within do
    lift (host.serveRpc "container_control")
    emit (.servedControl guard (limits args))
    host.servePlatformConfig args
    log (gateLines guard)
    stacked (lift host.hold) ((publishers args).map host.publisher) []
  log [{ text := "Shutting down" }]

def main (args : AppArgs) : App Unit := do
  lift (checkArgs args)
  match host.pingBackend with
  | .error (.backend _ message) =>
    throw (.exit (message ++ "\nThis responder needs the Docker socket bind-mounted and readable by " ++
      "its uid.\nSee the README: mount /var/run/docker.sock and set DOCKER_GID in your .env."))
  | .error e => throw (.raised e)
  | .ok () =>
    match buildGuard host.engine args.toArgs host.proc host.daemon with
    | none =>
      throw (.exit ("Cannot determine which container is my own, and --allow-control is set:\n" ++
        "a stop/restart of this container would kill the responder mid-call and it\n" ++
        "would not come back until its restart policy fired. Pass\n" ++
        "--self-container-name <the container_name: from your compose file>."))
    | some guard =>
      log [{ text := "Opening Zenoh session..." }]
      host.session.within do
        tryCatch (host.run args guard) fun
          | .keyboardInterrupt => log [{ text := "Shutting down on user request" }]
          | e => throw e

end AppHost

end KeelsonDocker
