import KeelsonDocker.Backend
import KeelsonDocker.LogQueue
import KeelsonDocker.LogsFollower
import KeelsonDocker.Theory.Dict
import KeelsonDocker.Theory.Effect

/-!
# `logs_follower.py`: the publisher thread

One thread drains the queue: for each line it builds the message, gets the publisher of the container and
puts the message; whatever is raised on the way is swallowed, with the publishers as they stand. A publisher
goes by the key it was declared for.
-/

namespace KeelsonDocker

/-- `SUBJECT` -/
def logSubject : String := "log_message"

/-- `foxglove.Log` -/
structure LogMessage where
  level : LogLevel
  message : String
  name : String
  timestamp : Timestamp
  deriving DecidableEq

structure LogPublisher where
  sourceId : String
  /-- `construct_pubsub_key`, for the base path and the entity of the process. -/
  pubsubKey : (subject sourceId : String) → String
  /-- `payload.timestamp.FromNanoseconds(int(stamp * 1e9))` -/
  timestamp : ℚ → Except Exn Timestamp

/-- What a line meets on the bus. -/
structure LogBus where
  declarePublisher : String → Except Exn Unit
  put : String → LogMessage → Except Exn Unit

/-- A message that was put, with the item of the queue it was built from. -/
structure LogPut (α : Type) where
  item : α
  key : String
  message : LogMessage

/-- What the publisher thread changes, with what was declared and put so far. -/
structure LogPublisherState (α : Type) where
  /-- `_publishers`, by container. -/
  publishers : List (String × String) := []
  declared : List String := []
  puts : List (LogPut α) := []

namespace LogPublisher

variable {α : Type}

/-- The key of a container's log lines: one channel for each container. -/
def keyOf (self : LogPublisher) (container : String) : String :=
  self.pubsubKey logSubject (self.sourceId ++ "/" ++ container)

/-- `Log(level=level, message=text, name=container)`, with its timestamp. -/
def payload (self : LogPublisher) (entry : LogEntry) : Except Exn LogMessage := do
  let timestamp ← self.timestamp entry.stamp
  return ⟨entry.level, entry.text, entry.container, timestamp⟩

/-- `_publisher_for` -/
def publisherFor (self : LogPublisher) (bus : LogBus) (container : String) :
    EStateM Exn (LogPublisherState α) String := do
  match (← get).publishers.lookup container with
  | some key => return key
  | none =>
    let key := self.keyOf container
    ofExcept (bus.declarePublisher key)
    modify fun s => { s with
      publishers := Dict.set container key s.publishers
      declared := s.declared ++ [key] }
    return key

/-- The body of the loop of `_publish_loop`, for an item that carries a line. -/
def publish (self : LogPublisher) (entry : α → LogEntry) (item : α) (bus : LogBus) :
    EStateM Exn (LogPublisherState α) Unit := do
  let message ← ofExcept (self.payload (entry item))
  let key ← self.publisherFor bus (entry item).container
  ofExcept (bus.put key message)
  modify fun s => { s with puts := s.puts ++ [⟨item, key, message⟩] }

/-- `_publish_loop`, over the items it gets. -/
def publishLoop (self : LogPublisher) (entry : α → LogEntry) (items : List (α × LogBus)) :
    LogPublisherState α :=
  items.foldl (fun s (item, bus) => Effect.after (self.publish entry item bus) s) {}

end LogPublisher

namespace LogQueue

variable {α : Type}

/-- What is left of a follower thread, as far as the queue can tell: a call of `_enqueue` for each line. -/
def enqueueAll (items : List α) : Threads.Prog (LogQueue α) QueueError Unit := items.forM enqueue

end LogQueue

end KeelsonDocker
