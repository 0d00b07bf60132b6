import KeelsonDocker.Theory.Threads

/-!
# `logs_follower.py`: the queue between followers and publisher

`_enqueue` runs in the follower threads, the publisher takes from the other end; each operation of the
queue and each increment of the counter is one step.
-/

namespace KeelsonDocker

open Threads

/-- What the operations of `queue.Queue` raise when they may not wait. -/
inductive QueueError
  | full | empty
  deriving DecidableEq, Repr

/-- `_queue` and `_dropped_by_queue`, with what was put into the queue and what the publisher took from
it so far. -/
structure LogQueue (α : Type) where
  /-- `maxsize`; the queue is unbounded unless it is positive. -/
  maxsize : Int
  queue : List α := []
  droppedByQueue : Nat := 0
  inserted : List α := []
  taken : List α := []

namespace LogQueue

variable {α : Type}

def isFull (q : LogQueue α) : Bool := 0 < q.maxsize && q.maxsize ≤ q.queue.length

def put (item : α) (q : LogQueue α) : LogQueue α :=
  { q with queue := q.queue ++ [item], inserted := q.inserted ++ [item] }

/-- `put_nowait` -/
def putNowait (item : α) : Prog (LogQueue α) QueueError Unit :=
  .atomic fun q => if q.isFull then (.error .full, q) else (.ok (), q.put item)

/-- `get_nowait` -/
def getNowait : Prog (LogQueue α) QueueError α :=
  .atomic fun q =>
    match q.queue with
    | [] => (.error .empty, q)
    | item :: queue => (.ok item, { q with queue })

/-- `self._dropped_by_queue += 1` -/
def countDropped : Prog (LogQueue α) QueueError Unit :=
  .atomic fun q => (.ok (), { q with droppedByQueue := q.droppedByQueue + 1 })

/-- Drop the oldest, if there is one still. -/
def dropOldest : Prog (LogQueue α) QueueError Unit :=
  tryCatch (do let _ ← getNowait; countDropped) fun
    | .empty => pure ()
    | e => throw e

/-- The second attempt, after which the line itself is dropped. -/
def putAgain (item : α) : Prog (LogQueue α) QueueError Unit :=
  tryCatch (putNowait item) fun
    | .full => countDropped
    | e => throw e

/-- `_enqueue` -/
def enqueue (item : α) : Prog (LogQueue α) QueueError Unit :=
  tryCatch (putNowait item) fun
    | .full => do
      dropOldest
      putAgain item
    | e => throw e

/-- The publisher's `get`. -/
inductive Takes : LogQueue α → LogQueue α → Prop
  | mk {q : LogQueue α} {item : α} {queue : List α} : q.queue = item :: queue →
    Takes q { q with queue, taken := q.taken ++ [item] }

end LogQueue

end KeelsonDocker
