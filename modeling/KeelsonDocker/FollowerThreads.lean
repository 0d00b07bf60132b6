import KeelsonDocker.Model
import KeelsonDocker.Theory.Dict

/-!
# `logs_follower.py`: the threads of a `LogFollower`, and `stop`

The scan thread, a follower thread for each container it found, and the thread that calls `stop`. Every
test of the flag, section under the lock, call of the backend and read is one step; an event says whose
step it is and what came of a call. `_emit` only hands lines to the queue.
-/

namespace KeelsonDocker

/-- What `_followers` holds for a container. -/
inductive Closer
  /-- `lambda: None`, until the thread has a stream. -/
  | placeholder
  /-- The closer that came with a stream. -/
  | of (stream : Nat)
  deriving DecidableEq, Repr

/-- The stream it closes. -/
def Closer.closes : Closer → List Nat
  | placeholder => []
  | of stream => [stream]

/-- How a call of the backend, or a read, ends. -/
inductive CallEnd
  | returned
  /-- The iterator has no more frames. -/
  | exhausted
  | raised
  deriving DecidableEq, Repr

/-- Where a thread is in `_follow`. -/
inductive FollowPlace
  /-- `while not self._stop.is_set()` -/
  | head
  /-- In the call of `follow_logs`. -/
  | opening
  /-- `follow_logs` has returned; `self._followers[name] = close` comes next. -/
  | opened (stream : Nat)
  /-- Parked in the read, for the next of the frames. -/
  | reading (stream : Nat)
  /-- With a frame, before the test in the loop over the frames. -/
  | arrived (stream : Nat)
  /-- `_emit` for the chunks of the frame. -/
  | emitting (stream : Nat)
  /-- After the loop over the frames. -/
  | flushing
  /-- In the handler of the exception. -/
  | raised
  /-- After the `try`. -/
  | tried
  /-- `_still_present` -/
  | asking
  /-- `self._stop.wait(2.0)` -/
  | waiting
  /-- `self._followers.pop(name, None)` -/
  | leaving
  | done
  deriving DecidableEq, Repr

/-- Where the scan thread is in `_scan_loop`. -/
inductive ScanPlace
  | head
  /-- In the call of `list`. -/
  | listing
  /-- `known = set(self._followers)` comes next. -/
  | listed (names : List String)
  /-- In the loop over the names. -/
  | choosing (known names : List String)
  /-- In `_spawn`, after the section under the lock. -/
  | spawning (name : String) (known names : List String)
  | waiting
  | done
  deriving DecidableEq, Repr

/-- Where the thread is that calls `stop`. -/
inductive StopPlace
  | idle
  /-- The flag is set; the section under the lock comes next. -/
  | flagged
  /-- The closers still to be called. -/
  | closing (closers : List Closer)
  | returned
  deriving DecidableEq, Repr

/-- What the threads share, where each of them is, and the streams so far. -/
structure FollowerThreads where
  /-- `_stop` -/
  stopped : Bool := false
  /-- `_followers`, in the order of insertion. -/
  followers : List (String × Closer) := []
  /-- How many streams were opened; a stream goes by its number. -/
  opened : Nat := 0
  /-- The streams whose closer was called. -/
  closed : List Nat := []
  stopper : StopPlace := .idle
  scan : ScanPlace := .head
  threads : List (String × FollowPlace) := []
  deriving DecidableEq, Repr

inductive ThreadEvent
  | stop
  /-- The scan thread, with what `list` returned, if that is the call; nothing when the call raised. -/
  | scan (listed : Option (List String))
  | follow (thread : Nat) (ending : CallEnd)
  deriving DecidableEq, Repr

namespace FollowerThreads

/-- `list(self._followers.values())` -/
def closers (s : FollowerThreads) : List Closer := s.followers.map Prod.snd

/-- `close()`, for one of the collected closers. -/
def close (s : FollowerThreads) (closer : Closer) : FollowerThreads :=
  { s with closed := s.closed ++ closer.closes }

/-- `stop`; after the closers it waits for the threads, each for so long at most. -/
def stopStep (s : FollowerThreads) : FollowerThreads :=
  match s.stopper with
  | .idle => { s with stopped := true, stopper := .flagged }
  | .flagged => { s with stopper := .closing s.closers }
  | .closing (closer :: closers) => { s.close closer with stopper := .closing closers }
  | .closing [] => { s with stopper := .returned }
  | .returned => s

/-- `_scan_loop` and `_spawn`; when `list` raises there are no names. -/
def scanStep (globs : List String) (s : FollowerThreads) (listed : Option (List String)) :
    FollowerThreads :=
  match s.scan with
  | .head => { s with scan := if s.stopped then .done else .listing }
  | .listing => { s with scan := .listed ((listed.getD []).filter fun name => matchesAny name globs) }
  | .listed names => { s with scan := .choosing (s.followers.map Prod.fst) names }
  | .choosing _ [] => { s with scan := .waiting }
  | .choosing known (name :: names) =>
    if name ∈ known then { s with scan := .choosing known names }
    else { s with
      followers := Dict.set name .placeholder s.followers
      scan := .spawning name known names }
  | .spawning name known names =>
    -- `thread.start()`; an exception of it ends the scan.
    match listed with
    | some _ => { s with threads := s.threads ++ [(name, .head)], scan := .choosing known names }
    | none => { s with scan := .done }
  | .waiting => { s with scan := .head }
  | .done => s

/-- One step of `_follow`: what is shared, and where the thread goes on. -/
def followStep (s : FollowerThreads) (name : String) (ending : CallEnd) :
    FollowPlace → FollowerThreads × FollowPlace
  | .head => (s, if s.stopped then .leaving else .opening)
  | .opening =>
    match ending with
    | .returned => ({ s with opened := s.opened + 1 }, .opened s.opened)
    | _ => (s, .raised)
  | .opened stream =>
    ({ s with followers := Dict.set name (.of stream) s.followers }, .reading stream)
  | .reading stream =>
    match ending with
    | .returned => (s, .arrived stream)
    | .exhausted => (s, .flushing)
    | .raised => (s, .raised)
  | .arrived stream => (s, if s.stopped then .flushing else .emitting stream)
  | .emitting stream => (s, if ending = .raised then .raised else .reading stream)
  | .flushing => (s, if ending = .raised then .raised else .tried)
  | .raised => (s, if s.stopped then .leaving else .tried)
  | .tried => (s, if s.stopped then .leaving else .asking)
  | .asking => (s, if ending = .returned then .waiting else .leaving)
  | .waiting => (s, .head)
  | .leaving => ({ s with followers := Dict.pop name s.followers }, .done)
  | .done => (s, .done)

def step (globs : List String) (s : FollowerThreads) : ThreadEvent → FollowerThreads
  | .stop => s.stopStep
  | .scan listed => s.scanStep globs listed
  | .follow i ending =>
    match s.threads[i]? with
    | none => s
    | some (name, place) =>
      let (s', place') := s.followStep name ending place
      { s' with threads := s.threads.set i (name, place') }

/-- A run from `start`, which starts the scan. -/
def run (globs : List String) (events : List ThreadEvent) : FollowerThreads :=
  events.foldl (step globs) {}

end FollowerThreads

end KeelsonDocker
