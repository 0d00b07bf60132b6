import KeelsonDocker.Messages
import Mathlib.Data.List.Sort
import Mathlib.Data.Prod.Lex

/-!
# `model.py`: the runtime's attributes as wire messages

The container description (`buildContainerInfo`) and the log lines (`parseLogLine`, `mergeLogLines`,
`capLogLines`). Resource utilisation is in `Stats.lean`.
-/

namespace KeelsonDocker

structure ContainerSnapshot where
  name : String
  id : String
  attrs : PyVal
  imageTags : List String := []
  imageId : String := ""
  labels : PyVal := .dict []

def matchesAny (name : String) (globs : List String) : Bool :=
  globs.any (fnmatchcase name)

/-! ### Container descriptions -/

/-- The Docker API reports "never happened" as the proto-zero instant. -/
def zeroTimes : List String := ["", "0001-01-01T00:00:00Z", "0001-01-01T00:00:00.000000000Z"]

/-- `Timestamp.ToDatetime().year <= 1`: before 0002-01-01T00:00:00Z. -/
def Timestamp.inYearOne (ts : Timestamp) : Bool := ts.seconds < -62104060800

def parseDockerTime (pb : Protobuf) : PyVal → Option Timestamp
  | .str value =>
    if value ∈ zeroTimes then none
    else match pb.timestampFromJson value with
      | none => none
      | some ts => if ts.seconds < 0 && ts.inYearOne then none else some ts
  | _ => none

def states : List (String × ContainerState) :=
  [("created", .created), ("running", .running), ("paused", .paused),
   ("restarting", .restarting), ("removing", .removing), ("exited", .exited), ("dead", .dead)]

def containerState (raw : String) : ContainerState :=
  (states.lookup raw.toLower).getD .unspecified

/-- The Engine API spells "no restart policy" as the empty string. -/
def restartPolicies : List (String × RestartPolicy) :=
  [("", .no), ("no", .no), ("always", .always), ("unless-stopped", .unlessStopped),
   ("on-failure", .onFailure)]

def restartPolicy : PyVal → RestartPolicy
  | .none => .unspecified
  | raw => (restartPolicies.lookup raw.pyStr.toLower).getD .unspecified

def healths : List (String × HealthStatus) :=
  [("starting", .starting), ("healthy", .healthy), ("unhealthy", .unhealthy), ("none", .none)]

/-- A container with no health check declares none. -/
def healthStatus (state : PyVal) : Except PyError HealthStatus := do
  let health ← state.orEmpty.get "Health"
  if !health.truthy then return .none
  let status ← health.getD "Status" (.str "")
  return (healths.lookup status.pyStr.toLower).getD .unspecified

/-- The image as deployed. -/
def imageReference (snapshot : ContainerSnapshot) : Except PyError String := do
  match snapshot.imageTags.find? (· != "") with
  | some tag => return tag
  | none =>
    let config ← snapshot.attrs.get "Config"
    match (← config.orEmpty.get "Image").orElse (.str snapshot.imageId) with
    | .str image => return image
    -- A string field refuses any other value.
    | _ => throw .typeError

def composeProjectLabel : String := "com.docker.compose.project"
def composeServiceLabel : String := "com.docker.compose.service"

/-- `str(d.get(key, "") or "")`. -/
def stringAt (d : PyVal) (key : String) : Except PyError String := do
  let v ← d.get key
  return (v.orElse (.str "")).pyStr

/-- `int(d.get(key) or 0)`. -/
def intAt (d : PyVal) (key : String) : Except PyError Int := do
  let v ← d.get key
  (v.orElse (.int 0)).toInt

/-- `snapshot.labels or (attrs.get("Config") or {}).get("Labels") or {}` -/
def snapshotLabels (snapshot : ContainerSnapshot) : Except PyError PyVal := do
  if snapshot.labels.truthy then return snapshot.labels
  let config ← snapshot.attrs.orEmpty.get "Config"
  return (← config.orEmpty.get "Labels").orEmpty

/-- The exit code of a state, which is meaningless until the container has exited once. -/
def exitCode (pb : Protobuf) (state : PyVal) : Except Exn (Option Int) := do
  let finished ← liftPy (state.get "FinishedAt")
  if (parseDockerTime pb finished).isNone then return none
  some <$> int32 (← liftPy (intAt state "ExitCode"))

def buildContainerInfo (pb : Protobuf) (snapshot : ContainerSnapshot)
    (controllable removable : Bool) : Except Exn ContainerInfo := do
  let attrs := snapshot.attrs.orEmpty
  let state := (← liftPy (attrs.get "State")).orEmpty
  let hostConfig := (← liftPy (attrs.get "HostConfig")).orEmpty
  let policy := (← liftPy (hostConfig.get "RestartPolicy")).orEmpty
  let labels ← liftPy (snapshotLabels snapshot)
  let image ← liftPy (imageReference snapshot)
  let rawState ← liftPy (stringAt state "Status")
  let policyName ← liftPy (policy.get "Name")
  let maxRetries ← liftPy (intAt policy "MaximumRetryCount")
  let restartCount ← liftPy (intAt attrs "RestartCount")
  let health ← liftPy (healthStatus state)
  let composeProject ← liftPy (stringAt labels composeProjectLabel)
  let composeService ← liftPy (stringAt labels composeServiceLabel)
  let maxRetries ← uint32 maxRetries
  let restartCount ← uint32 restartCount
  let created ← liftPy (attrs.get "Created")
  let started ← liftPy (state.get "StartedAt")
  let finished ← liftPy (state.get "FinishedAt")
  let exitCode ← exitCode pb state
  return {
    name := snapshot.name
    id := snapshot.id
    image
    state := containerState rawState
    rawState
    createdAt := parseDockerTime pb created
    startedAt := parseDockerTime pb started
    finishedAt := parseDockerTime pb finished
    exitCode
    restartPolicy := restartPolicy policyName
    restartPolicyMaxRetries := maxRetries
    restartCount
    health
    controllable
    composeProject
    composeService
    removable }

/-! ### Log lines -/

/-- `_LOG_PREFIX`, `^(\S+?Z)\s(.*)$`: no blank is part of the token, so it is what precedes the first
blank, and it has to end in `Z` after at least one other byte. -/
def logPrefix (chunk : Bytes) : Option (Bytes × Bytes) :=
  let token := chunk.takeWhile (!isSpaceByte ·)
  match chunk.drop token.length with
  | _ :: text => if 2 ≤ token.length && token.getLast? == some 90 then some (token, text) else none
  | [] => none

/-- One line of `--timestamps` output, or nothing if it is blank. -/
def parseLogLine (pb : Protobuf) (chunk : Bytes) (stream : LogStream) : Option LogLine :=
  if chunk.all isSpaceByte then none
  else
    let (text, ts) := match logPrefix chunk with
      | some (token, text) => (text, parseDockerTime pb (.str (asciiReplace token)))
      | none => (chunk, none)
    some { time := ts, stream, text := rstrip '\r' (decodeReplace text) }

/-- The byte that ends a line. -/
def newline : UInt8 := 10

def parseLogStream (pb : Protobuf) (raw : Bytes) (stream : LogStream) : List LogLine :=
  if raw.isEmpty then []
  else (raw.splitOn newline).filterMap (parseLogLine pb · stream)

/-- The key of the merge: the carried time, the stream, the position in it. -/
structure MergeKey where
  carried : Int × Int
  stream : Nat
  position : Nat
  deriving DecidableEq

/-- Tuples compare lexicographically. -/
def MergeKey.le (k k' : MergeKey) : Bool :=
  toLex (toLex k.carried, toLex (k.stream, k.position)) ≤
    toLex (toLex k'.carried, toLex (k'.stream, k'.position))

/-- The keyed lines of one stream, from a position on. A line without a time inherits the previous
one of its own stream. -/
def keyLines (stream : Nat) : (carried : Int × Int) → (position : Nat) → List LogLine →
    List (MergeKey × LogLine)
  | _, _, [] => []
  | carried, position, line :: lines =>
    let carried' := (line.time.map fun t => (t.seconds, t.nanos)).getD carried
    (⟨carried', stream, position⟩, line) :: keyLines stream carried' (position + 1) lines

def mergeLogLines (stdout stderr : List LogLine) : List LogLine :=
  if stderr.isEmpty then stdout
  else if stdout.isEmpty then stderr
  else
    let keyed := keyLines 0 (0, 0) 0 stdout ++ keyLines 1 (0, 0) 0 stderr
    (keyed.insertionSort fun x y => x.1.le y.1).map Prod.snd

/-- What a line counts towards the byte ceiling. -/
def LogLine.size (line : LogLine) : Nat := line.text.utf8ByteSize + 1

/-- The loop of `cap_log_lines` over the lines from the last to the first: how many of them fit. -/
def countFitting (maxBytes : Int) : (total : Nat) → List LogLine → Nat
  | _, [] => 0
  | total, line :: lines =>
    let total := total + line.size
    if maxBytes < total then 0 else countFitting maxBytes total lines + 1

/-- Trim to the most recent window: `(lines, truncated)`. -/
def capLogLines (lines : List LogLine) (maxLines maxBytes : Int) : List LogLine × Bool :=
  let (kept, truncated) :=
    if 0 < maxLines && maxLines < lines.length then
      (lines.drop (lines.length - maxLines.toNat), true)
    else (lines, false)
  if 0 < maxBytes then
    let start := kept.length - countFitting maxBytes 0 kept.reverse
    if 0 < start then (kept.drop start, true) else (kept, truncated)
  else (kept, truncated)

end KeelsonDocker
