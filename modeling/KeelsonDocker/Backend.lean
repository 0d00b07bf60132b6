import KeelsonDocker.Model

/-!
# `backend.py`: the Docker Engine adapter

`Engine σ` is docker-py's client over a daemon in a state `σ`: outside the package, and free to do
anything between two calls. A procedure runs in `Proc σ`, which threads the daemon's state and keeps
every call made to the daemon and every reply sent.
-/

namespace KeelsonDocker

/-- The reversible verbs. -/
inductive Verb
  | start | stop | restart
  deriving DecidableEq, Repr

def Verb.name : Verb → String
  | start => "start"
  | stop => "stop"
  | restart => "restart"

structure Image where
  tags : List String
  id : String

/-- A docker-py `Container`. `image` is the outcome of the lookup behind that property. -/
structure Container where
  name : Option String
  id : String
  attrs : PyVal
  labels : PyVal
  image : Except Exn (Option Image)

structure Engine (σ : Type) where
  /-- `docker.from_env()`; it costs nothing once the thread has its client. -/
  fromEnv : σ → Except Exn Unit × σ
  list : (all : Bool) → (label : Option String) → σ → Except Exn (List Container) × σ
  get : String → σ → Except Exn Container × σ
  act : Verb → Container → (timeout : Option Int) → σ → Except Exn Unit × σ
  reload : Container → σ → Except Exn Container × σ
  remove : Container → (force volumes : Bool) → σ → Except Exn Unit × σ
  logs : Container → (stdout stderr : Bool) → (tail : Option Nat) → (since : Option Int) → σ →
    Except Exn Bytes × σ
  /-- One sample, `stream=False, one_shot=True`. -/
  stats : String → σ → Except Exn PyVal × σ

/-- A call made to the daemon. -/
inductive Call
  | fromEnv
  | list (all : Bool) (label : Option String)
  | get (name : String)
  | act (verb : Verb) (container : Container) (timeout : Option Int)
  | reload (container : Container)
  | remove (container : Container) (force volumes : Bool)
  | logs (container : Container) (stdout stderr : Bool) (tail : Option Nat) (since : Option Int)
  | stats (nameOrId : String)

inductive Response
  | list (r : ListContainersResponse)
  | logs (r : GetLogsResponse)
  | action (r : ContainerActionResponse)
  | remove (r : RemoveContainerResponse)

inductive Reply
  | ok (response : Response)
  | err (description : String) (code : Code)

structure World (σ : Type) where
  daemon : σ
  calls : List Call := []
  replies : List Reply := []
  /-- `time.time_ns()` -/
  timeNs : Int := 0

abbrev Proc (σ : Type) := EStateM Exn (World σ)

variable {σ : Type}

def World.answer (w : World σ) (reply : Reply) : World σ :=
  { w with replies := w.replies ++ [reply] }

/-- One call to the daemon: it is made whatever comes back. -/
def request (c : Call) (f : σ → Except Exn α × σ) : Proc σ α := fun w =>
  let w' := { w with daemon := (f w.daemon).2, calls := w.calls ++ [c] }
  match (f w.daemon).1 with
  | .ok a => .ok a w'
  | .error e => .error e w'

/-- A step that may raise and changes no state. -/
def ofExcept {τ : Type} : Except Exn α → EStateM Exn τ α
  | .ok a => pure a
  | .error e => throw e

/-- What a procedure returns or raises when run on a daemon's state. -/
def outcome (x : Proc σ α) (d : σ) : Except Exn α :=
  match x { daemon := d } with
  | .ok a _ => .ok a
  | .error e _ => .error e

namespace DockerBackend

/-- An exception of docker-py as the code the caller will see. -/
def translate (kind : DockerError) (text what name : String) : Exn :=
  match kind with
  | .notFound =>
    .backend .notFound
      (if name ≠ "" then "no such container: " ++ name else "no such container (" ++ what ++ ")")
  | .apiError => .backend .ioFailure ("failed to " ++ what ++ ": " ++ text)
  | .dockerException => .backend .unavailable ("failed to " ++ what ++ ": " ++ text)

/-- `except (APIError, DockerException) as exc: raise self._translate(exc, what, name)`. -/
def translating (what name : String) (x : Proc σ α) : Proc σ α :=
  tryCatch x fun
    | .docker kind text => throw (translate kind text what name)
    | e => throw e

variable (E : Engine σ)

/-- The thread's client. -/
def client : Proc σ Unit :=
  tryCatch (request .fromEnv E.fromEnv) fun
    | .docker _ text => throw (.backend .unavailable ("cannot reach the container runtime: " ++ text))
    | e => throw e

/-- An image deleted out from under a container is not a reason to drop it from the listing. -/
def snapshot (c : Container) : Except Exn ContainerSnapshot := do
  let (imageTags, imageId) ← match c.image with
    | .ok (some image) => pure (image.tags, image.id)
    | .ok none => pure ([], "")
    | .error e => if e.isDocker then pure ([], "") else throw e
  return {
    name := c.name.getD ""
    id := c.id
    attrs := c.attrs.orEmpty
    imageTags, imageId
    labels := c.labels.orEmpty }

def list (runningOnly : Bool := false) (label : Option String := none) :
    Proc σ (List ContainerSnapshot) := do
  let containers ← translating "list containers" "" do
    client E
    request (.list (!runningOnly) label) (E.list (!runningOnly) label)
  ofExcept (containers.mapM snapshot)

def get (name : String) : Proc σ ContainerSnapshot :=
  translating "get container" name do
    client E
    let container ← request (.get name) (E.get name)
    ofExcept (snapshot container)

/-- One instantaneous sample of a container's resource counters. -/
def stats (nameOrId : String) : Proc σ PyVal :=
  translating "read stats" nameOrId do
    client E
    let raw ← request (.stats nameOrId) (E.stats nameOrId)
    return raw.orEmpty

/-- `bool(((container.attrs or {}).get(outer) or {}).get(inner))`. -/
def flag (container : Container) (outer inner : String) : Except PyError Bool := do
  let value ← (← container.attrs.orEmpty.get outer).orEmpty.get inner
  return value.truthy

/-- One stream of a container's log, if it is wanted. -/
def fetch (container : Container) (stdout stderr want : Bool) (tail : Option Nat)
    (since : Option Int) : Proc σ Bytes :=
  if want then
    request (.logs container stdout stderr tail since) (E.logs container stdout stderr tail since)
  else pure []

/-- `(stdout, stderr, tty, snapshot)`. A container with a TTY gets one untagged call. -/
def logs (name : String) (tail : Int) (since : Option Int) (wantStdout wantStderr : Bool) :
    Proc σ (Bytes × Bytes × Bool × ContainerSnapshot) :=
  translating "read logs" name do
    client E
    let container ← request (.get name) (E.get name)
    let tty ← ofExcept (liftPy (flag container "Config" "Tty"))
    -- `None` stands for "all".
    let tail := if 0 < tail then some tail.toNat else none
    if tty then
      let merged ← fetch E container true true true tail since
      let snapshot ← ofExcept (snapshot container)
      return (merged, [], true, snapshot)
    let out ← fetch E container true false wantStdout tail since
    let err ← fetch E container false true wantStderr tail since
    let snapshot ← ofExcept (snapshot container)
    return (out, err, false, snapshot)

/-- `_act`: look the container up, perform the verb, re-read it. -/
def act (name : String) (verb : Verb) (timeout : Option Int) : Proc σ ContainerSnapshot :=
  translating verb.name name do
    client E
    let container ← request (.get name) (E.get name)
    request (.act verb container timeout) (E.act verb container timeout)
    let container ← request (.reload container) (E.reload container)
    ofExcept (snapshot container)

def start (name : String) (_timeoutS : Int) : Proc σ ContainerSnapshot := act E name .start none
def stop (name : String) (timeoutS : Int) : Proc σ ContainerSnapshot :=
  act E name .stop (some timeoutS)
def restart (name : String) (timeoutS : Int) : Proc σ ContainerSnapshot :=
  act E name .restart (some timeoutS)

/-- `getattr(backend, verb)`. -/
def perform : Verb → String → Int → Proc σ ContainerSnapshot
  | .start => start E
  | .stop => stop E
  | .restart => restart E

/-- Delete a container: `(snapshot as it last was, was_running)`. -/
def remove (name : String) (force removeVolumes : Bool) : Proc σ (ContainerSnapshot × Bool) :=
  translating "remove" name do
    client E
    let container ← request (.get name) (E.get name)
    let last ← ofExcept (snapshot container)
    let running ← ofExcept (liftPy (flag container "State" "Running"))
    if running && !force then
      throw (.backend .invalidState (pyRepr name ++ " is running; stop it first, or repeat with " ++
        "force to kill and remove it in one step"))
    request (.remove container force removeVolumes) (E.remove container force removeVolumes)
    return (last, running)

end DockerBackend

end KeelsonDocker
