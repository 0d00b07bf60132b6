import KeelsonDocker.LogsFollower

/-!
# One container, its daemon, and the thread that follows its log

The container writes lines at any time. A connection carries what `follow_logs` asked for, and then every
line written while it is open; its bytes arrive in frames cut anywhere. The thread of `_follow` ends when
`_still_present` gets no answer, and the scan starts another one.
-/

namespace KeelsonDocker

/-- A line of a container's log as the daemon streams it with timestamps, without its newline. -/
structure LoggedLine where
  /-- In seconds. -/
  time : ℚ
  raw : Bytes
  ne_nil : raw ≠ []
  noNewline : newline ∉ raw

/-- A byte of a log stream, with the number of its line, its place in that line, and the line's length. -/
structure LogByte where
  line : Nat
  offset : Nat
  length : Nat
  byte : UInt8
  deriving DecidableEq

def LoggedLine.bytes (line : LoggedLine) (i : Nat) : List LogByte :=
  line.raw.zipIdx.map fun (b, k) => ⟨i, k, line.raw.length, b⟩

def LoggedLine.terminator (line : LoggedLine) (i : Nat) : LogByte :=
  ⟨i, line.raw.length, line.raw.length, newline⟩

/-- Numbered lines as they are streamed. -/
def streamOf : List (LoggedLine × Nat) → List LogByte
  | [] => []
  | (line, i) :: lines => line.bytes i ++ line.terminator i :: streamOf lines

/-- What the daemon sends first: of the lines not older than `since`, the last `tail`. -/
def replay (request : FollowRequest) (log : List LoggedLine) : List (LoggedLine × Nat) :=
  Tail.last request.tail (log.zipIdx.filter fun p => request.since.all (· ≤ p.1.time))

/-- Where the follower's thread is. -/
inductive Stage
  /-- There is no thread. -/
  | absent
  /-- At the head of the loop, about to call `follow_logs`. -/
  | starting
  /-- In the loop over the frames, with the bytes still to come. -/
  | following (stream : List LogByte)
  /-- After the `try`, about to ask whether the container is still present. -/
  | ended

structure FollowState where
  log : List LoggedLine := []
  stage : Stage := .absent
  follower : LogFollower.Following LogByte
  /-- How many lines there were at the first successful call of `follow_logs`. -/
  origin : Option Nat := none

inductive FollowEvent
  /-- The container writes a line. -/
  | write (line : LoggedLine)
  /-- The scan finds the container and starts a thread. -/
  | spawn
  | connect
  /-- `follow_logs` raises. -/
  | refuse
  /-- The next `n` bytes arrive. -/
  | frame (n : Nat) (clock : Nat → ℚ)
  /-- The stream ends by itself: the container stopped, or the connection was closed. -/
  | finish (clock : Nat → ℚ)
  /-- Reading the stream raises. -/
  | fail
  /-- `_still_present`, then the wait. -/
  | present
  /-- The container is gone, or the daemon does not answer. -/
  | missing

namespace LogFollower

variable (self : LogFollower) (name : String)

/-- The start of `_follow`. -/
def fresh (f : Following LogByte) : Following LogByte where
  limiter := { maxLinesPerS := self.maxLinesPerS }
  emitted := f.emitted
  entries := f.entries

/-- The lines the next connection begins with. -/
def replayed (s : FollowState) : List (LoggedLine × Nat) :=
  replay (DockerBackend.followRequest s.follower.since self.tail) s.log

def step (s : FollowState) : FollowEvent → Option FollowState
  | .write line =>
    let log := s.log ++ [line]
    match s.stage with
    | .following stream =>
      some { s with log, stage := .following (stream ++ streamOf [(line, s.log.length)]) }
    | _ => some { s with log }
  | .spawn =>
    match s.stage with
    | .absent => some { s with stage := .starting, follower := self.fresh s.follower }
    | _ => none
  | .connect =>
    match s.stage with
    | .starting => some { s with
        stage := .following (streamOf (self.replayed s))
        origin := s.origin.or (some s.log.length) }
    | _ => none
  | .refuse =>
    match s.stage with
    | .starting => some { s with stage := .ended }
    | _ => none
  | .frame n clock =>
    match s.stage with
    | .following stream => some { s with
        stage := .following (stream.drop n)
        follower := self.frame LogByte.byte name clock (stream.take n) s.follower }
    | _ => none
  | .finish clock =>
    match s.stage with
    | .following _ => some { s with
        stage := .ended
        follower := self.finish LogByte.byte name clock s.follower }
    | _ => none
  | .fail =>
    match s.stage with
    | .following _ => some { s with stage := .ended }
    | _ => none
  | .present =>
    match s.stage with
    | .ended => some { s with stage := .starting }
    | _ => none
  | .missing =>
    match s.stage with
    | .ended => some { s with stage := .absent }
    | _ => none

def initial : FollowState where
  follower := { limiter := { maxLinesPerS := self.maxLinesPerS } }

/-- The states reached by steps that are all permitted. -/
inductive Reached (permits : FollowState → FollowEvent → Prop) : FollowState → Prop
  | initial : Reached permits self.initial
  | step : Reached permits s → permits s e → self.step name s e = some s' → Reached permits s'

/-- Everything a step can do. -/
inductive Stepped (config : LogFollower) (name : String) (s : FollowState) :
    FollowEvent → FollowState → Prop
  | write : (∀ stream, s.stage ≠ .following stream) →
    Stepped config name s (.write line) { s with log := s.log ++ [line] }
  /-- A line written while the connection is open comes at its end. -/
  | stream : s.stage = .following stream → Stepped config name s (.write line) { s with
      log := s.log ++ [line]
      stage := .following (stream ++ streamOf [(line, s.log.length)]) }
  | spawn : s.stage = .absent → Stepped config name s .spawn { s with
      stage := .starting
      follower := config.fresh s.follower }
  | connect : s.stage = .starting → Stepped config name s .connect { s with
      stage := .following (streamOf (config.replayed s))
      origin := s.origin.or (some s.log.length) }
  | refuse : s.stage = .starting → Stepped config name s .refuse { s with stage := .ended }
  | frame : s.stage = .following stream → Stepped config name s (.frame n clock) { s with
      stage := .following (stream.drop n)
      follower := config.frame LogByte.byte name clock (stream.take n) s.follower }
  | finish : s.stage = .following stream → Stepped config name s (.finish clock) { s with
      stage := .ended
      follower := config.finish LogByte.byte name clock s.follower }
  | fail : s.stage = .following stream → Stepped config name s .fail { s with stage := .ended }
  | present : s.stage = .ended → Stepped config name s .present { s with stage := .starting }
  | missing : s.stage = .ended → Stepped config name s .missing { s with stage := .absent }

theorem stepped {e : FollowEvent} {s' : FollowState} (h : self.step name s e = some s') :
    Stepped self name s e s' := by
  cases e with
  | write line =>
    simp only [step] at h
    split at h
    · cases h
      exact .stream ‹_›
    · rename_i hstage
      cases h
      exact .write fun stream hs => hstage stream hs
  | _ =>
    simp only [step] at h
    split at h
    · cases h
      constructor
      assumption
    · cases h

end LogFollower

end KeelsonDocker
