import KeelsonDocker.Handlers
import KeelsonDocker.Theory.Effect
import Mathlib.Algebra.Order.Ring.Rat

/-!
# `status_publisher.py`: the container set as `container_status`

One thread: snapshot, digest, publish if changed or due. A tick is the body of the loop's `try`; whatever
it raises is swallowed, with the attributes as they stand.
-/

namespace KeelsonDocker

structure ContainerStatusPublisher (σ δ : Type) where
  backend : Engine σ
  guard : ControlGuard
  heartbeatS : ℚ := 30
  /-- The hash of the serialized infos, one after the other. -/
  digest : List ContainerInfo → δ
  pb : Protobuf

/-- A message that was put, with the clock reading of its tick. -/
structure StatusPut where
  message : ContainerHostStatus
  now : ℚ

/-- The attributes the loop changes, with the calls of `_publish` and the messages put so far. -/
structure StatusState (δ : Type) where
  sequence : Nat := 0
  lastDigest : Option δ := none
  lastSentAt : ℚ := 0
  attempts : Nat := 0
  puts : List StatusPut := []

/-- What a tick meets: the runtime's state, the readings of the clocks, and the bus. -/
structure StatusTick (σ : Type) where
  daemon : σ
  now : ℚ
  timeNs : Int
  put : ContainerHostStatus → Except Exn Unit

namespace ContainerStatusPublisher

variable {σ δ : Type} [DecidableEq δ]

/-- `_snapshot` -/
def snapshot (self : ContainerStatusPublisher σ δ) : Proc σ (List ContainerInfo) := do
  let snapshots ← DockerBackend.list self.backend
  ofExcept ((sortByName snapshots).mapM fun s =>
    buildContainerInfo self.pb s (self.guard.controllable s.name s.id)
      (self.guard.removable s.name s.id))

/-- `_publish`: the sequence moves only after the put. -/
def publish (self : ContainerStatusPublisher σ δ) (infos : List ContainerInfo)
    (trigger : StatusTrigger) (tick : StatusTick σ) : EStateM Exn (StatusState δ) Unit := do
  modify fun s => { s with attempts := s.attempts + 1 }
  let sequence := (← get).sequence
  let _ ← ofExcept (uint64 sequence)
  let message : ContainerHostStatus := {
    containers := infos
    observedAt := Timestamp.fromNanoseconds tick.timeNs
    controlEnabled := self.guard.controlEnabled
    trigger, sequence
    removeEnabled := self.guard.removeEnabled }
  ofExcept (tick.put message)
  modify fun s => { s with sequence := s.sequence + 1, puts := s.puts ++ [⟨message, tick.now⟩] }

/-- One turn of `_loop`. -/
def turn (self : ContainerStatusPublisher σ δ) (tick : StatusTick σ) :
    EStateM Exn (StatusState δ) Unit := do
  let infos ← ofExcept (outcome self.snapshot tick.daemon)
  let digest := self.digest infos
  let s ← get
  let changed := s.lastDigest ≠ some digest
  let due := self.heartbeatS ≤ tick.now - s.lastSentAt
  if changed ∨ due then
    publish self infos (if changed then .change else .heartbeat) tick
    modify fun s => { s with lastDigest := some digest, lastSentAt := tick.now }

/-- `_loop`, over the ticks it makes. -/
def loop (self : ContainerStatusPublisher σ δ) (ticks : List (StatusTick σ)) : StatusState δ :=
  ticks.foldl (fun s tick => Effect.after (self.turn tick) s) {}

end ContainerStatusPublisher

end KeelsonDocker
