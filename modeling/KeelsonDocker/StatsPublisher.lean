import KeelsonDocker.Handlers
import KeelsonDocker.Stats
import KeelsonDocker.Theory.Effect

/-!
# `stats_publisher.py`: the utilisation of the running containers

One thread: sweep, publish. The try of `sweep` around one container encloses the stats call alone.
-/

namespace KeelsonDocker

structure ContainerStatsPublisher (σ : Type) where
  backend : Engine σ
  globs : List String := ["*"]

/-- The attributes the loop changes, with the messages handed to `put` so far. -/
structure StatsState where
  sequence : Nat := 0
  /-- Last sweep's counters by container id; an entry hides the later ones of its id. -/
  previous : List (String × StatsSample) := []
  puts : List ContainerHostStats := []

/-- What a tick meets: the runtime's state, the monotonic clock as read at the container in a position
of the sweep, the wall clock, and the bus. -/
structure StatsTick (σ : Type) where
  daemon : σ
  monotonicS : Nat → ℚ
  timeNs : Int
  put : ContainerHostStats → Except Exn Unit

/-- The rows and the samples of a sweep so far. -/
structure Sweep where
  entries : List ContainerResourceUsage := []
  samples : List (String × StatsSample) := []

/-- `try: … except Exception: continue`. -/
def attempt (x : Proc σ α) : Proc σ (Option α) :=
  tryCatch (some <$> x) fun _ => pure none

namespace ContainerStatsPublisher

variable {σ : Type}

/-- The containers a sweep goes through. -/
def selected (self : ContainerStatsPublisher σ) (snapshots : List ContainerSnapshot) :
    List ContainerSnapshot :=
  sortByName (snapshots.filter fun s => matchesAny s.name self.globs)

/-- The body of the loop of `_sweep`. -/
def readOne (self : ContainerStatsPublisher σ) (previous : List (String × StatsSample))
    (monotonicS : Nat → ℚ) (acc : Sweep) (target : ContainerSnapshot × Nat) : Proc σ Sweep := do
  let (snapshot, position) := target
  match ← attempt (DockerBackend.stats self.backend snapshot.id) with
  | none => return acc
  | some raw =>
    match ← ofExcept (buildResourceUsage snapshot raw (previous.lookup snapshot.id)
        (monotonicS position)) with
    | none => return acc
    | some (usage, sample) =>
      return {
        entries := acc.entries ++ [usage]
        samples := (snapshot.id, sample) :: acc.samples }

/-- `_sweep` -/
def sweep (self : ContainerStatsPublisher σ) (previous : List (String × StatsSample))
    (monotonicS : Nat → ℚ) : Proc σ Sweep := do
  let snapshots ← DockerBackend.list self.backend true
  (self.selected snapshots).zipIdx.foldlM (self.readOne previous monotonicS) {}

/-- `_publish`: the sequence moves only after the put. -/
def publish (entries : List ContainerResourceUsage) (tick : StatsTick σ) :
    EStateM Exn StatsState Unit := do
  let sequence := (← get).sequence
  let _ ← ofExcept (uint64 sequence)
  let message : ContainerHostStats := {
    containers := entries
    observedAt := Timestamp.fromNanoseconds tick.timeNs
    sequence }
  modify fun s => { s with puts := s.puts ++ [message] }
  ofExcept (tick.put message)
  modify fun s => { s with sequence := s.sequence + 1 }

/-- One turn of `_loop`: the samples are kept as soon as the sweep is through. -/
def turn (self : ContainerStatsPublisher σ) (tick : StatsTick σ) : EStateM Exn StatsState Unit := do
  let previous := (← get).previous
  let swept ← ofExcept (outcome (self.sweep previous tick.monotonicS) tick.daemon)
  modify fun s => { s with previous := swept.samples }
  publish swept.entries tick

/-- `_loop`, over the ticks it makes. -/
def loop (self : ContainerStatsPublisher σ) (ticks : List (StatsTick σ)) : StatsState :=
  ticks.foldl (fun s tick => Effect.after (self.turn tick) s) {}

end ContainerStatsPublisher

end KeelsonDocker
