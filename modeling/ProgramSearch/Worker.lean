/-!
# Workers

A worker runs its tasks one at a time, in the order in which they were enqueued. A task
that panics answers with an error and does not disturb the tasks behind it. Dropping a
worker puts an end mark behind everything that is queued and waits until the worker
reaches it, so every task that was enqueued before has run.
-/

namespace ProgramSearch

/-- What a panic carries. -/
inductive PanicPayload where
  | text (message : String)
  /-- Something that is not a text. -/
  | other
deriving DecidableEq, Repr

def PanicPayload.message : PanicPayload → String
  | text message => message
  | other => "unknown panic payload"

/-- Why a task has no result. -/
inductive TaskError where
  | panicked (message : String)
  | cancelled
deriving DecidableEq, Repr

def TaskError.message : TaskError → String
  | panicked message => "task panicked: " ++ message
  | cancelled => "task was cancelled before it ran"

/-- A task, by what it does when it runs: it returns a value or panics. -/
abbrev Task (β : Type) := Except PanicPayload β

/-- What the handle of a task that has run yields. -/
def Task.result {β : Type} : Task β → Except TaskError β
  | .ok value => .ok value
  | .error payload => .error (.panicked payload.message)

inductive Message (β : Type) where
  /-- A task and the ticket of its handle. -/
  | run (ticket : Nat) (task : Task β)
  | terminate

/-- A worker with what it has been asked and what it has answered. -/
structure Worker (β : Type) where
  inbox : List (Message β) := []
  /-- The answers in the order in which the tasks ran. -/
  answers : List (Nat × Except TaskError β) := []
  stopped : Bool := false

namespace Worker

variable {β : Type}

/-- Put a task behind everything that was enqueued before. -/
def enqueue (worker : Worker β) (ticket : Nat) (task : Task β) : Worker β :=
  { worker with inbox := worker.inbox ++ [.run ticket task] }

/-- Ask the worker to stop when it has done all that was enqueued before. -/
def terminate (worker : Worker β) : Worker β :=
  { worker with inbox := worker.inbox ++ [.terminate] }

/-- Treat the next message. A worker that has stopped, or has nothing to do, stays as it
is. -/
def step (worker : Worker β) : Worker β :=
  if worker.stopped then worker
  else
    match worker.inbox with
    | [] => worker
    | .run ticket task :: rest =>
      { worker with inbox := rest, answers := worker.answers ++ [(ticket, task.result)] }
    | .terminate :: rest => { worker with inbox := rest, stopped := true }

/-- Take a number of steps. -/
def steps : Nat → Worker β → Worker β
  | 0, worker => worker
  | count + 1, worker => steps count worker.step

/-- Stop the worker and wait until it has. -/
def drop (worker : Worker β) : Worker β :=
  let ending := worker.terminate
  steps ending.inbox.length ending

/-- What a handle yields: the answer to its task, or a cancellation if the worker stopped
without running it. -/
def wait (worker : Worker β) (ticket : Nat) : Except TaskError β :=
  match worker.answers.find? (·.1 == ticket) with
  | some (_, result) => result
  | none => .error .cancelled

/-- The values that tasks returned, in the order in which they ran. -/
def values (worker : Worker β) : List β :=
  worker.answers.filterMap fun (_, result) => result.toOption

end Worker

/-- Workers numbered from zero. -/
abbrev WorkerPool (β : Type) := Array (Worker β)

namespace WorkerPool

variable {β : Type}

def spawn (count : Nat) : WorkerPool β := Array.replicate count {}

/-- Enqueue tasks, each with the number of its worker. The ticket of a task is its position
in the list. -/
def enqueueAll (pool : WorkerPool β) (tasks : List (Nat × Task β)) : WorkerPool β :=
  tasks.zipIdx.foldl
    (fun pool ((worker, task), ticket) => pool.modify worker (·.enqueue ticket task)) pool

/-- Stop every worker. -/
def dropAll (pool : WorkerPool β) : WorkerPool β := pool.map Worker.drop

/-- What the handle of a task yields. -/
def wait (pool : WorkerPool β) (worker ticket : Nat) : Except TaskError β :=
  match pool[worker]? with
  | some worker => worker.wait ticket
  | none => .error .cancelled

end WorkerPool

end ProgramSearch
