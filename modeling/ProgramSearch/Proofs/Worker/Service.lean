import ProgramSearch.Worker

/-!
# Workers and their owners

A worker is a thread that its owner talks to by messages. Every task brings a reply channel of its
own: the worker holds the sender, and whoever enqueued the task holds the handle. The owner, the
holders of the handles and the thread take their steps in any order. A handle that is waited on
yields what the channel contains, or a cancellation when the sender is gone and nothing was sent; as
long as neither is the case, it blocks. Dropping the worker sends the end mark and returns when the
thread has ended. A thread that has read the end mark throws away what is still queued.

The tasks are numbered by their tickets in the order in which they were enqueued.
-/

namespace ProgramSearch

variable {β : Type}

/-- What became of the handle of a task. -/
inductive Handle (β : Type) where
  | pending
  /-- It was waited on. -/
  | yielded (answer : Except TaskError β)
  /-- It was dropped without being waited on. -/
  | forgotten

/-- The way from a task to its handle. -/
structure ReplyChannel (β : Type) where
  /-- Whether there still is a sender. -/
  connected : Bool := true
  content : Option (Except TaskError β) := none
  handle : Handle β := .pending

namespace ReplyChannel

/-- Send the answer. It is thrown away if nobody can receive it. -/
def send (channel : ReplyChannel β) (answer : Except TaskError β) : ReplyChannel β :=
  match channel.handle with
  | .pending => { channel with content := some answer }
  | .yielded _ | .forgotten => channel

/-- Drop the sender. -/
def disconnect (channel : ReplyChannel β) : ReplyChannel β := { channel with connected := false }

/-- Wait on the handle, if there is one and it does not block. -/
def wait? (channel : ReplyChannel β) : Option (ReplyChannel β) :=
  match channel.handle with
  | .pending =>
    match channel.content with
    | some answer => some { channel with content := none, handle := .yielded answer }
    | none =>
      if channel.connected then none
      else some { channel with handle := .yielded (.error .cancelled) }
  | .yielded _ | .forgotten => none

/-- Drop the handle, if there is one. -/
def forget? (channel : ReplyChannel β) : Option (ReplyChannel β) :=
  match channel.handle with
  | .pending => some { channel with content := none, handle := .forgotten }
  | .yielded _ | .forgotten => none

end ReplyChannel

/-- What the thread of a worker is doing. -/
inductive Activity (β : Type) where
  | idle
  | running (ticket : Nat) (task : Task β)
  /-- The answer was sent, but its sender is not dropped yet. -/
  | answered (ticket : Nat)
  /-- The end mark was read. -/
  | closing
  | ended

/-- What the owner of a worker is doing. -/
inductive Ownership where
  | held
  /-- Waiting for the thread to end. -/
  | dropping
  | released

/-- What happens to tasks. -/
inductive TaskMoment (β : Type) where
  | began (ticket : Nat)
  | finished (ticket : Nat) (answer : Except TaskError β)

/-- The answer to a task that has finished. -/
def TaskMoment.answer? : TaskMoment β → Option (Nat × Except TaskError β)
  | began _ => none
  | finished ticket answer => some (ticket, answer)

/-- A worker with everybody who has to do with it. -/
structure Service (β : Type) where
  /-- The messages that the thread has not read. -/
  inbox : List (Message β) := []
  activity : Activity β := .idle
  /-- The reply channels of all tasks, by their tickets. -/
  channels : List (ReplyChannel β) := []
  ownership : Ownership := .held
  /-- What has happened to tasks so far. -/
  history : List (TaskMoment β) := []

/-- Who takes a step. -/
inductive ServiceEvent (β : Type) where
  | enqueue (task : Task β)
  | wait (ticket : Nat)
  | forget (ticket : Nat)
  /-- The thread takes a step. -/
  | work
  | drop
  /-- The drop returns. -/
  | returned

/-- The task that is enqueued, if one is. -/
def ServiceEvent.task? : ServiceEvent β → Option (Task β)
  | enqueue task => some task
  | wait _ | forget _ | work | drop | returned => none

def ServiceEvent.isWork : ServiceEvent β → Bool
  | work => true
  | enqueue _ | wait _ | forget _ | drop | returned => false

namespace Service

/-- Send a message to the thread. It is lost if the thread has ended. -/
def tell (service : Service β) (message : Message β) : Service β :=
  match service.activity with
  | .ended => service
  | _ => { service with inbox := service.inbox ++ [message] }

/-- Enqueue a task with a new reply channel. If the message is lost, so is the sender. -/
def enqueue (service : Service β) (task : Task β) : Service β :=
  let ticket := service.channels.length
  let channel : ReplyChannel β :=
    match service.activity with
    | .ended => { connected := false }
    | _ => {}
  { service.tell (.run ticket task) with channels := service.channels ++ [channel] }

/-- A step of the thread, unless it has nothing to do. -/
def work (service : Service β) : Option (Service β) :=
  match service.activity, service.inbox with
  | .idle, [] => none
  | .idle, .run ticket task :: rest =>
    some { service with
      inbox := rest
      activity := .running ticket task
      history := service.history ++ [.began ticket] }
  | .idle, .terminate :: rest => some { service with inbox := rest, activity := .closing }
  | .running ticket task, _ =>
    some { service with
      activity := .answered ticket
      channels := service.channels.modify ticket (·.send task.result)
      history := service.history ++ [.finished ticket task.result] }
  | .answered ticket, _ =>
    some { service with
      activity := .idle, channels := service.channels.modify ticket (·.disconnect) }
  | .closing, [] => some { service with activity := .ended }
  | .closing, .run ticket _ :: rest =>
    some { service with
      inbox := rest, channels := service.channels.modify ticket (·.disconnect) }
  | .closing, .terminate :: rest => some { service with inbox := rest }
  | .ended, _ => none

/-- Change the channel of a task, if that is possible now. -/
def change (service : Service β) (ticket : Nat)
    (act : ReplyChannel β → Option (ReplyChannel β)) : Option (Service β) := do
  let channel ← service.channels[ticket]?
  let changed ← act channel
  pure { service with channels := service.channels.set ticket changed }

/-- What a step leads to, if it can be taken now. Whoever drops a worker has exclusive access to
it, so no task is enqueued from then on. -/
def step (service : Service β) : ServiceEvent β → Option (Service β)
  | .enqueue task =>
    match service.ownership with
    | .held => some (service.enqueue task)
    | .dropping | .released => none
  | .wait ticket => service.change ticket ReplyChannel.wait?
  | .forget ticket => service.change ticket ReplyChannel.forget?
  | .work => service.work
  | .drop =>
    match service.ownership with
    | .held => some { service.tell .terminate with ownership := .dropping }
    | .dropping | .released => none
  | .returned =>
    match service.ownership, service.activity with
    | .dropping, .ended => some { service with ownership := .released }
    | _, _ => none

/-- What several steps lead to. -/
def run : List (ServiceEvent β) → Service β → Option (Service β)
  | [], service => some service
  | event :: rest, service => (service.step event).bind (run rest)

/-- The worker without threads and channels: a task is in the inbox until its answer is sent. -/
def plain (service : Service β) : Worker β where
  inbox :=
    match service.activity with
    | .running ticket task => .run ticket task :: service.inbox
    | _ => service.inbox
  answers := service.history.filterMap TaskMoment.answer?
  stopped :=
    match service.activity with
    | .closing | .ended => true
    | _ => false

end Service

/-- The messages for the tasks from a ticket on. -/
def queuedFrom (tasks : List (Task β)) (ticket : Nat) : List (Message β) :=
  (tasks.zipIdx.drop ticket).map fun (task, number) => .run number task

/-- What happens to the tasks before a ticket when they run one after the other. -/
def schedule (tasks : List (Task β)) (ticket : Nat) : List (TaskMoment β) :=
  (tasks.zipIdx.take ticket).flatMap fun (task, number) =>
    [.began number, .finished number task.result]

section Schedules

variable {tasks : List (Task β)} {ticket : Nat} {task : Task β}

/-- The next message is the next task, with its ticket. -/
theorem queued_found (found : tasks[ticket]? = some task) :
    queuedFrom tasks ticket = .run ticket task :: queuedFrom tasks (ticket + 1) := by
  obtain ⟨inside, same⟩ := List.getElem?_eq_some_iff.mp found
  have position : ticket < tasks.zipIdx.length := by rwa [List.length_zipIdx]
  rw [queuedFrom, List.drop_eq_getElem_cons position, List.map_cons, List.getElem_zipIdx, same,
    Nat.zero_add]
  rfl

/-- There is no message behind the last task. -/
theorem queued_done (tasks : List (Task β)) : queuedFrom tasks tasks.length = [] := by
  rw [queuedFrom, List.drop_eq_nil_of_le (Nat.le_of_eq List.length_zipIdx)]
  rfl

theorem queued_snoc (task : Task β) (known : ticket ≤ tasks.length) :
    queuedFrom (tasks ++ [task]) ticket = queuedFrom tasks ticket ++ [.run tasks.length task] := by
  rw [queuedFrom, List.zipIdx_append, List.drop_append_of_le_length (by
    rwa [List.length_zipIdx]), List.map_append]
  simp [queuedFrom]

/-- The next task begins and finishes after the others. -/
theorem schedule_found (found : tasks[ticket]? = some task) :
    schedule tasks (ticket + 1) =
      schedule tasks ticket ++ [.began ticket, .finished ticket task.result] := by
  obtain ⟨inside, same⟩ := List.getElem?_eq_some_iff.mp found
  have position : ticket < tasks.zipIdx.length := by rwa [List.length_zipIdx]
  rw [schedule, List.take_succ_eq_append_getElem position, List.flatMap_append, List.getElem_zipIdx,
    same, Nat.zero_add]
  rfl

/-- Tasks that are enqueued later do not change what happens before. -/
theorem schedule_snoc (task : Task β) (known : ticket ≤ tasks.length) :
    schedule (tasks ++ [task]) ticket = schedule tasks ticket := by
  rw [schedule, List.zipIdx_append, List.take_append_of_le_length (by rwa [List.length_zipIdx])]
  rfl

/-- What happened before a ticket happened first. -/
theorem schedule_prefix (tasks : List (Task β)) (ticket : Nat) :
    schedule tasks ticket <+: schedule tasks tasks.length := by
  have whole : schedule tasks tasks.length = tasks.zipIdx.flatMap fun (task, number) =>
      [.began number, .finished number task.result] := by
    rw [schedule, List.take_of_length_le (Nat.le_of_eq List.length_zipIdx)]
  refine ⟨(tasks.zipIdx.drop ticket).flatMap fun (task, number) =>
    [.began number, .finished number task.result], ?_⟩
  rw [schedule, whole, ← List.flatMap_append, List.take_append_drop]

end Schedules

namespace Worker

/-- A worker with tasks enqueued one after the other. -/
def ofTasks (tasks : List (Task β)) : Worker β :=
  tasks.zipIdx.foldl (fun worker (task, ticket) => worker.enqueue ticket task) {}

/-- The answers to the tasks before a ticket. -/
def answersBefore (tasks : List (Task β)) (ticket : Nat) : List (Nat × Except TaskError β) :=
  (schedule tasks ticket).filterMap TaskMoment.answer?

/-- Enqueueing puts the messages behind each other. -/
theorem enqueue_all (entries : List (Task β × Nat)) (worker : Worker β) :
    entries.foldl (fun worker (task, ticket) => worker.enqueue ticket task) worker =
      { worker with
        inbox := worker.inbox ++ entries.map fun (task, number) => .run number task } := by
  induction entries generalizing worker with
  | nil => simp
  | cons entry rest inductionHypothesis =>
    rw [List.foldl_cons, inductionHypothesis]
    simp [enqueue]

theorem of_tasks_eq (tasks : List (Task β)) :
    ofTasks tasks = { inbox := queuedFrom tasks 0 } := by
  rw [ofTasks, enqueue_all]
  rfl

theorem steps_succ (count : Nat) (worker : Worker β) :
    steps (count + 1) worker = (steps count worker).step := by
  induction count generalizing worker with
  | zero => rfl
  | succ count inductionHypothesis => exact inductionHypothesis worker.step

/-- Each of the first steps answers a task. -/
theorem steps_queued {tasks : List (Task β)} {count : Nat} (known : count ≤ tasks.length)
    (rest : List (Message β)) :
    steps count { inbox := queuedFrom tasks 0 ++ rest } =
      { inbox := queuedFrom tasks count ++ rest, answers := answersBefore tasks count } := by
  induction count with
  | zero => rfl
  | succ count inductionHypothesis =>
    obtain ⟨task, found⟩ : ∃ task, tasks[count]? = some task := ⟨_, List.getElem?_eq_getElem known⟩
    rw [steps_succ, inductionHypothesis (Nat.le_of_lt known), queued_found found, answersBefore,
      answersBefore, schedule_found found, List.filterMap_append]
    rfl

/-- A worker that is dropped has answered every task that was enqueued. -/
theorem drop_of_tasks (tasks : List (Task β)) :
    (ofTasks tasks).drop =
      { inbox := [], answers := answersBefore tasks tasks.length, stopped := true } := by
  have length : (queuedFrom tasks 0).length = tasks.length := by simp [queuedFrom]
  rw [drop, of_tasks_eq, terminate]
  simp only [List.length_append, List.length_singleton, length]
  rw [steps_succ, steps_queued (Nat.le_refl _), queued_done]
  rfl

/-- Of the moments of some tasks, the answers are those of the tasks. -/
theorem answers_of_moments (entries : List (Task β × Nat)) :
    (entries.flatMap fun (task, number) =>
      [TaskMoment.began number, .finished number task.result]).filterMap TaskMoment.answer? =
        entries.map fun (task, number) => (number, task.result) := by
  induction entries with
  | nil => rfl
  | cons entry rest inductionHypothesis =>
    rw [List.flatMap_cons, List.filterMap_append, inductionHypothesis]
    rfl

/-- The first answer under the number of a task is that of the task. -/
theorem answer_found {tasks : List (Task β)} {ticket : Nat} {task : Task β}
    (found : tasks[ticket]? = some task) (offset : Nat) :
    ((tasks.zipIdx offset).map fun (task, number) => (number, task.result)).find?
      (·.1 == offset + ticket) = some (offset + ticket, task.result) := by
  induction tasks generalizing offset ticket with
  | nil => cases found
  | cons other rest inductionHypothesis =>
    rw [List.zipIdx_cons, List.map_cons, List.find?_cons]
    cases ticket with
    | zero =>
      obtain rfl := Option.some.inj found
      simp
    | succ ticket =>
      have apart : (offset == offset + (ticket + 1)) = false := by simp
      have later := inductionHypothesis found (offset + 1)
      rw [Nat.add_assoc, Nat.add_comm 1] at later
      simp only [apart]
      exact later

/-- The handle of a task yields its answer when the worker was dropped. -/
theorem wait_drop {tasks : List (Task β)} {ticket : Nat} {task : Task β}
    (found : tasks[ticket]? = some task) : (ofTasks tasks).drop.wait ticket = task.result := by
  have present := answer_found found 0
  rw [Nat.zero_add] at present
  rw [drop_of_tasks, wait, answersBefore, schedule, answers_of_moments,
    List.take_of_length_le (Nat.le_of_eq List.length_zipIdx)]
  simp only [present]

end Worker

end ProgramSearch
