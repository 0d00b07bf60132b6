import KeelsonDocker.Model
import KeelsonDocker.Theory.Tail
import Mathlib.Algebra.Order.Ring.Rat

/-!
# `logs_follower.py`: following container logs

The pieces one follower thread is made of: the level of a line, the reassembly of lines, the rate cap,
`_emit`. A frame is a list of anything that carries a byte, so that a run can keep track of where in the
log a byte comes from.
-/

namespace KeelsonDocker

/-! ### Levels -/

/-- `foxglove.Log.Level`, as far as the package sends it. -/
inductive LogLevel
  | debug | info | warning | error | fatal
  deriving DecidableEq, Repr

def levels : List (String × LogLevel) :=
  [("TRACE", .debug), ("DEBUG", .debug), ("INFO", .info), ("NOTICE", .info), ("WARN", .warning),
   ("WARNING", .warning), ("ERROR", .error), ("ERR", .error), ("FATAL", .fatal),
   ("CRITICAL", .fatal)]

/-- The ASCII capital that a character matches when case is ignored, itself otherwise. Four letters
outside ASCII match one inside. -/
def foldCase (c : Char) : Char :=
  if c = 'ı' ∨ c = 'İ' then 'I' else if c = 'ſ' then 'S' else if c = '\u212a' then 'K'
  else c.toUpper

/-- `[A-Za-z]`, ignoring case. -/
def isLetter (c : Char) : Bool := 'A' ≤ foldCase c && foldCase c ≤ 'Z'

/-- What follows a token at the beginning of the text. -/
def afterToken (token : String) (text : List Char) : Option (List Char) :=
  if (text.take token.length).map foldCase = token.toList then some (text.drop token.length)
  else none

/-- A severity token that no letter follows. `İ` is its own upper case, so that a token written with it
is in no table. -/
def severityAt (text : List Char) : Option LogLevel :=
  levels.findSome? fun (token, level) =>
    match afterToken token text with
    | some rest =>
      if rest.head?.any isLetter then none
      else some (if (text.take token.length).contains 'İ' then .info else level)
    | none => none

/-- `PANIC\s*:` -/
def panicAt (text : List Char) : Option LogLevel :=
  match afterToken "PANIC" text with
  | some rest => if (rest.dropWhile isSpace).head? = some ':' then some .fatal else none
  | none => none

/-- `(?:^|[^A-Za-z])` before a match, leftmost first. -/
def searchFrom (here : List Char → Option LogLevel) : List Char → Option LogLevel
  | [] => none
  | c :: rest => (if isLetter c then none else here rest) <|> searchFrom here rest

def search (here : List Char → Option LogLevel) (text : List Char) : Option LogLevel :=
  here text <|> searchFrom here text

/-- Guess a log level from the line, defaulting to INFO. -/
def sniffLevel (text : String) : LogLevel :=
  let window := text.toList.take 48
  ((search panicAt window <|> search severityAt window)).getD .info

example : sniffLevel "2026-01-01 ERROR something failed" = .error := by decide
example : sniffLevel "no errors found" = .info := by decide

/-! ### Lines from frames -/

/-- The tail is held back until its newline arrives. -/
structure LineBuffer (α : Type) where
  remainder : List α := []

namespace LineBuffer

variable {α : Type} (byte : α → UInt8)

def feed (buffer : LineBuffer α) (frame : List α) : List (List α) × LineBuffer α :=
  let parts := (buffer.remainder ++ frame).splitOnP (byte · == newline)
  (parts.dropLast, ⟨parts.getLastD []⟩)

/-- Whatever is left when the stream ends, unless it is blank. -/
def flush (buffer : LineBuffer α) : List (List α) × LineBuffer α :=
  (if buffer.remainder.all (isSpaceByte <| byte ·) then [] else [buffer.remainder], {})

end LineBuffer

section

variable {α : Type} {byte : α → UInt8}

/-- No newline is among the bytes. -/
def Unbroken (byte : α → UInt8) (l : List α) : Prop := ∀ x ∈ l, byte x ≠ newline

theorem Unbroken.splitOnP {l : List α} (h : Unbroken byte l) : l.splitOnP (byte · == newline) = [l] :=
  List.splitOnP_eq_singleton fun x hx => beq_false_of_ne (h x hx)

theorem LineBuffer.feed_nil {buffer : LineBuffer α} (h : Unbroken byte buffer.remainder) :
    buffer.feed byte [] = ([], buffer) := by
  simp [feed, h.splitOnP]

end

/-! ### The rate cap -/

structure RateLimiter where
  maxLinesPerS : Int
  window : ℚ := 0
  count : Int := 0
  dropped : Nat := 0

namespace RateLimiter

def allow (limiter : RateLimiter) (now : ℚ) : Bool × RateLimiter :=
  if limiter.maxLinesPerS ≤ 0 then (true, limiter)
  else
    let limiter := if 1 ≤ now - limiter.window then { limiter with window := now, count := 0 }
      else limiter
    let limiter := { limiter with count := limiter.count + 1 }
    if limiter.count ≤ limiter.maxLinesPerS then (true, limiter)
    else (false, { limiter with dropped := limiter.dropped + 1 })

def overflowNote (limiter : RateLimiter) : Option String × RateLimiter :=
  if limiter.dropped = 0 then (none, limiter)
  else
    (some s!"[keelson] dropped {limiter.dropped} line(s) -- rate cap of {limiter.maxLinesPerS}/s",
      { limiter with dropped := 0 })

end RateLimiter

/-! ### `_emit` -/

/-- An entry of the queue. -/
structure LogEntry where
  container : String
  text : String
  level : LogLevel
  stamp : ℚ
  deriving DecidableEq

structure LogFollower where
  maxLinesPerS : Int := 200
  tail : Int := 0
  pb : Protobuf
  /-- `ns / 1e9` as a double. -/
  seconds : Int → ℚ

/-- The keyword arguments of the daemon's `logs` that depend on the request of `follow_logs`. -/
structure FollowRequest where
  tail : Nat
  since : Option ℚ

namespace DockerBackend

/-- What `follow_logs` asks for: "from the beginning" is expressed by leaving `since` out. -/
def followRequest (since : Option ℚ) (tail : Int) : FollowRequest where
  tail := if 0 < tail then tail.toNat else 0
  since := since.filter (0 < ·)

end DockerBackend

namespace LogFollower

/-- `_emit`: the resume point, the limiter, and the entries handed to the queue. -/
def emit (self : LogFollower) (name : String) (chunk : Bytes) (limiter : RateLimiter)
    (since : Option ℚ) (now : ℚ) : Option ℚ × RateLimiter × List LogEntry :=
  match parseLogLine self.pb chunk .unspecified with
  | none => (since, limiter, [])
  | some line =>
    let (allowed, limiter) := limiter.allow now
    if !allowed then (since, limiter, [])
    else
      let (note, limiter) := limiter.overflowNote
      let notes := note.toList.map fun text => ⟨name, text, .warning, now⟩
      let stamp := (line.time.map fun t => self.seconds t.toNanoseconds).getD now
      (some stamp, limiter, notes ++ [⟨name, line.text, sniffLevel line.text, stamp⟩])

/-- The local variables of `_follow`, with what it has handed on so far. -/
structure Following (α : Type) where
  limiter : RateLimiter
  since : Option ℚ := none
  buffer : LineBuffer α := {}
  /-- The chunks handed to `_emit`. -/
  emitted : List (List α) := []
  entries : List LogEntry := []

variable {α : Type} (byte : α → UInt8)

/-- `since = self._emit(name, chunk, limiter, since)`. -/
def take (self : LogFollower) (name : String) (f : Following α) (chunk : List α) (now : ℚ) :
    Following α :=
  let (since, limiter, entries) := self.emit name (chunk.map byte) f.limiter f.since now
  { f with since, limiter, emitted := f.emitted ++ [chunk], entries := f.entries ++ entries }

/-- `_emit` for one chunk after the other, at the readings of a clock. -/
def takeAll (self : LogFollower) (name : String) (clock : Nat → ℚ) (chunks : List (List α))
    (f : Following α) : Following α :=
  chunks.zipIdx.foldl (fun f (chunk, k) => self.take byte name f chunk (clock k)) f

theorem takeAll_eq (self : LogFollower) (name : String) (clock : Nat → ℚ) (chunks : List (List α))
    (f : Following α) :
    (self.takeAll byte name clock chunks f).emitted = f.emitted ++ chunks ∧
    (self.takeAll byte name clock chunks f).buffer = f.buffer := by
  unfold takeAll
  generalize 0 = k
  induction chunks generalizing f k with
  | nil => exact ⟨(List.append_nil _).symm, rfl⟩
  | cons chunk chunks ih =>
    obtain ⟨hemitted, hbuffer⟩ := ih (self.take byte name f chunk (clock k)) (k + 1)
    refine ⟨hemitted.trans ?_, hbuffer⟩
    show (f.emitted ++ [chunk]) ++ chunks = _
    rw [List.append_assoc, List.singleton_append]

/-- The body of `for frame in frames`. -/
def frame (self : LogFollower) (name : String) (clock : Nat → ℚ) (bytes : List α)
    (f : Following α) : Following α :=
  let (chunks, buffer) := f.buffer.feed byte bytes
  self.takeAll byte name clock chunks { f with buffer }

/-- What follows the loop over the frames when the stream ends by itself. -/
def finish (self : LogFollower) (name : String) (clock : Nat → ℚ) (f : Following α) : Following α :=
  let (chunks, buffer) := f.buffer.flush byte
  self.takeAll byte name clock chunks { f with buffer }

/-- One round of the loop of `_follow`, with the readings of the clock at each frame. A round that a stop
request breaks off is drained, and the last one. -/
inductive Round (α : Type)
  /-- `follow_logs` raises. -/
  | refused
  /-- The stream ends by itself. -/
  | drained (frames : List (List α × (Nat → ℚ))) (clock : Nat → ℚ)
  /-- Reading the stream raises. -/
  | broken (frames : List (List α × (Nat → ℚ)))

/-- The bytes of the round's connection, as far as they were read. -/
def Round.stream : Round α → List α
  | .refused => []
  | .drained frames _ => frames.flatMap Prod.fst
  | .broken frames => frames.flatMap Prod.fst

/-- The loop over the frames. -/
def readFrames (self : LogFollower) (name : String) (frames : List (List α × (Nat → ℚ)))
    (f : Following α) : Following α :=
  frames.foldl (fun f (bytes, clock) => self.frame byte name clock bytes f) f

def round (self : LogFollower) (name : String) (f : Following α) : Round α → Following α
  | .refused => f
  | .drained frames clock => self.finish byte name clock (self.readFrames byte name frames f)
  | .broken frames => self.readFrames byte name frames f

/-- `_follow`: rounds until `_still_present` says no. -/
def follow (self : LogFollower) (name : String) (rounds : List (Round α)) : Following α :=
  rounds.foldl (self.round byte name) { limiter := { maxLinesPerS := self.maxLinesPerS } }

end LogFollower

end KeelsonDocker
