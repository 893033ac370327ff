import ProgramSearch.Proofs.Worker.Service

/-!
# The protocol of a worker

Whatever the order in which tasks are enqueued, handles are waited on or dropped, the thread takes
its steps, and the worker is dropped: the tasks run once each, in the order in which they were
enqueued, one at a time, and every handle yields the answer of its own task. Nothing is cancelled,
because nothing can be enqueued behind the end mark.

The invariant says how far the thread is. What has happened and what is still queued follow from the
number of tasks that have finished, and so do the reply channels.
-/

namespace ProgramSearch

variable {β : Type}

/-- The state of a reply channel, by whether its task has finished. -/
structure ReplyChannel.Keeps (channel : ReplyChannel β) (task : Task β) (finished : Prop) :
    Prop where
  yielded : ∀ answer, channel.handle = .yielded answer → answer = task.result
  /-- Before, whoever waits is blocked. -/
  waiting : ¬ finished → channel.connected = true ∧ channel.content = none
  /-- Afterwards, whoever waits gets the answer. -/
  arrived : finished → channel.handle = .pending → channel.content = some task.result

namespace ReplyChannel.Keeps

variable {channel : ReplyChannel β} {task : Task β} {finished : Prop}

/-- A new channel. -/
theorem fresh (task : Task β) (unfinished : ¬ finished) :
    ({} : ReplyChannel β).Keeps task finished where
  yielded _ yields := by cases yields
  waiting _ := ⟨rfl, rfl⟩
  arrived done := absurd done unfinished

/-- The answer arrives, or nobody wants it any more. -/
theorem send (keeps : channel.Keeps task False) : (channel.send task.result).Keeps task True := by
  obtain ⟨connected, content, handle⟩ := channel
  cases handle with
  | pending =>
    exact ⟨fun _ yields => (nomatch yields), fun running => absurd trivial running, fun _ _ => rfl⟩
  | yielded answer =>
    exact ⟨keeps.yielded, fun running => absurd trivial running, fun _ pending => nomatch pending⟩
  | forgotten =>
    exact ⟨keeps.yielded, fun running => absurd trivial running, fun _ pending => nomatch pending⟩

/-- A sender that has sent its answer is no longer needed. -/
theorem disconnect (keeps : channel.Keeps task finished) (done : finished) :
    channel.disconnect.Keeps task finished where
  yielded := keeps.yielded
  waiting running := absurd done running
  arrived := keeps.arrived

/-- Waiting yields the answer of the task, after it has finished. -/
theorem wait (keeps : channel.Keeps task finished) {after : ReplyChannel β}
    (waits : channel.wait? = some after) : after.Keeps task finished := by
  unfold ReplyChannel.wait? at waits
  cases handle : channel.handle with
  | pending =>
    by_cases done : finished
    · simp only [handle, keeps.arrived done handle] at waits
      obtain rfl := Option.some.inj waits
      exact ⟨fun answer yields => (Handle.yielded.inj yields).symm,
        fun running => absurd done running, fun _ pending => nomatch pending⟩
    · obtain ⟨connected, empty⟩ := keeps.waiting done
      simp only [handle, connected, empty, if_true] at waits
      cases waits
  | yielded answer => simp only [handle, reduceCtorEq] at waits
  | forgotten => simp only [handle, reduceCtorEq] at waits

/-- Nobody waits for a task that has finished. -/
theorem wait_finished (keeps : channel.Keeps task finished) (done : finished)
    (pending : channel.handle = .pending) :
    channel.wait? = some { channel with content := none, handle := .yielded task.result } := by
  simp only [ReplyChannel.wait?, pending, keeps.arrived done pending]

/-- A handle may be dropped at any time. -/
theorem forget (keeps : channel.Keeps task finished) {after : ReplyChannel β}
    (forgets : channel.forget? = some after) : after.Keeps task finished := by
  unfold ReplyChannel.forget? at forgets
  cases handle : channel.handle with
  | pending =>
    simp only [handle] at forgets
    obtain rfl := Option.some.inj forgets
    exact ⟨fun answer yields => (nomatch yields),
      fun running => ⟨(keeps.waiting running).1, rfl⟩, fun _ pending => nomatch pending⟩
  | yielded answer => simp only [handle, reduceCtorEq] at forgets
  | forgotten => simp only [handle, reduceCtorEq] at forgets

end ReplyChannel.Keeps

namespace Service

/-- The message that is sent when the worker is dropped. -/
def ending : Ownership → List (Message β)
  | .held => []
  | .dropping | .released => [.terminate]

/-- How far the thread is: how many tasks have finished, what is left in the inbox, what has
happened, and how many steps were taken. -/
inductive Progress (tasks : List (Task β)) (ownership : Ownership) :
    Nat → Activity β → List (Message β) → List (TaskMoment β) → Nat → Prop
  | idle {done : Nat} : done ≤ tasks.length → ownership ≠ .released →
      Progress tasks ownership done .idle (queuedFrom tasks done ++ ending ownership)
        (schedule tasks done) (3 * done)
  | running {done : Nat} {task : Task β} : tasks[done]? = some task → ownership ≠ .released →
      Progress tasks ownership done (.running done task)
        (queuedFrom tasks (done + 1) ++ ending ownership)
        (schedule tasks done ++ [.began done]) (3 * done + 1)
  | answered {done : Nat} : done < tasks.length → ownership ≠ .released →
      Progress tasks ownership (done + 1) (.answered done)
        (queuedFrom tasks (done + 1) ++ ending ownership) (schedule tasks (done + 1))
        (3 * done + 2)
  | closing : ownership = .dropping →
      Progress tasks ownership tasks.length .closing [] (schedule tasks tasks.length)
        (3 * tasks.length + 1)
  | ended : ownership ≠ .held →
      Progress tasks ownership tasks.length .ended [] (schedule tasks tasks.length)
        (3 * tasks.length + 2)

/-- What holds after every sequence of steps in which the given tasks were enqueued and the thread
took the given number of steps. -/
structure Invariant (service : Service β) (tasks : List (Task β)) (worked : Nat) : Prop where
  handles : service.channels.length = tasks.length
  progress : ∃ done,
    Progress tasks service.ownership done service.activity service.inbox service.history worked ∧
      ∀ (ticket : Nat) (task : Task β) (channel : ReplyChannel β), tasks[ticket]? = some task →
        service.channels[ticket]? = some channel → channel.Keeps task (ticket < done)

section Progress

variable {tasks : List (Task β)} {done worked : Nat} {activity : Activity β}
  {inbox : List (Message β)} {history : List (TaskMoment β)}

/-- A thread whose worker was not dropped reads another task after the others. -/
theorem Progress.enqueue (progress : Progress tasks .held done activity inbox history worked)
    (task : Task β) :
    Progress (tasks ++ [task]) .held done activity (inbox ++ [.run tasks.length task]) history
      worked ∧ activity ≠ .ended ∧ done ≤ tasks.length := by
  have longer : (tasks ++ [task]).length = tasks.length + 1 := List.length_append
  cases progress with
  | idle known unreleased =>
    have later : done ≤ (tasks ++ [task]).length := by omega
    have progress := Progress.idle later unreleased
    rw [queued_snoc task known, schedule_snoc task known] at progress
    simp only [ending, List.append_nil] at progress ⊢
    exact ⟨progress, nofun, known⟩
  | running found unreleased =>
    obtain ⟨known, _⟩ := List.getElem?_eq_some_iff.mp found
    have stays : (tasks ++ [task])[done]? = tasks[done]? := List.getElem?_append_left known
    have progress := Progress.running (stays.trans found) unreleased
    rw [queued_snoc task known, schedule_snoc task (Nat.le_of_lt known)] at progress
    simp only [ending, List.append_nil] at progress ⊢
    exact ⟨progress, nofun, Nat.le_of_lt known⟩
  | @answered ticket known unreleased =>
    have later : ticket < (tasks ++ [task]).length := by omega
    have progress := Progress.answered later unreleased
    rw [queued_snoc task known, schedule_snoc task known] at progress
    simp only [ending, List.append_nil] at progress ⊢
    exact ⟨progress, nofun, known⟩
  | closing dropping => cases dropping
  | ended dropped => exact absurd rfl dropped

/-- A thread whose worker is dropped reads the end mark after all tasks. -/
theorem Progress.drop (progress : Progress tasks .held done activity inbox history worked) :
    Progress tasks .dropping done activity (inbox ++ [.terminate]) history worked ∧
      activity ≠ .ended := by
  cases progress with
  | idle known _ =>
    rw [ending, List.append_nil]
    exact ⟨.idle known nofun, nofun⟩
  | running found _ =>
    rw [ending, List.append_nil]
    exact ⟨.running found nofun, nofun⟩
  | answered known _ =>
    rw [ending, List.append_nil]
    exact ⟨.answered known nofun, nofun⟩
  | closing dropping => cases dropping
  | ended dropped => exact absurd rfl dropped

end Progress

namespace Invariant

variable {service after : Service β} {tasks : List (Task β)} {worked : Nat}

/-- A new worker. -/
theorem start : Invariant ({} : Service β) [] 0 where
  handles := rfl
  progress := ⟨0, .idle (Nat.le_refl 0) nofun, nofun⟩

/-- What is done to a handle leaves the thread alone. -/
theorem change (invariant : service.Invariant tasks worked) {ticket : Nat}
    {act : ReplyChannel β → Option (ReplyChannel β)}
    (acts : ∀ (channel changed : ReplyChannel β) (task : Task β) (finished : Prop),
      channel.Keeps task finished → act channel = some changed → changed.Keeps task finished)
    (changes : service.change ticket act = some after) : after.Invariant tasks worked := by
  obtain ⟨done, progress, keeps⟩ := invariant.progress
  simp only [Service.change, Option.bind_eq_bind, Option.bind_eq_some_iff] at changes
  obtain ⟨channel, found, changed, acted, rest⟩ := changes
  obtain rfl := Option.some.inj rest
  refine ⟨List.length_set.trans invariant.handles, done, progress, ?_⟩
  intro other task current known present
  rw [List.getElem?_set] at present
  split at present
  · rename_i same
    subst same
    split at present
    · obtain rfl := Option.some.inj present
      exact acts channel changed task _ (keeps ticket task channel known found) acted
    · cases present
  · exact keeps other task current known present

/-- A message reaches a thread that has not ended. -/
theorem tell_reaches (message : Message β) (runs : service.activity ≠ .ended) :
    service.tell message = { service with inbox := service.inbox ++ [message] } := by
  unfold tell
  split
  · exact absurd ‹_› runs
  · rfl

/-- A task that is enqueued while the thread has not ended gets a connected channel. -/
theorem enqueue_reaches (task : Task β) (runs : service.activity ≠ .ended) :
    service.enqueue task =
      { service with
        inbox := service.inbox ++ [.run service.channels.length task]
        channels := service.channels ++ [{}] } := by
  unfold Service.enqueue
  dsimp only
  rw [tell_reaches _ runs]
  split
  · exact absurd ‹_› runs
  · rfl

/-- A task that is enqueued comes last and has a new channel. -/
theorem enqueue (invariant : service.Invariant tasks worked) (held : service.ownership = .held)
    (task : Task β) : (service.enqueue task).Invariant (tasks ++ [task]) worked := by
  obtain ⟨handles, done, progress, keeps⟩ := invariant
  rw [held] at progress
  obtain ⟨further, runs, known⟩ := progress.enqueue task
  rw [enqueue_reaches task runs]
  refine ⟨by simp [handles], done, by rwa [handles, held], ?_⟩
  intro ticket other channel present found
  by_cases old : ticket < tasks.length
  · rw [List.getElem?_append_left old] at present
    rw [List.getElem?_append_left (handles ▸ old)] at found
    exact keeps ticket other channel present found
  · have later : service.channels.length ≤ ticket := by omega
    rw [List.getElem?_append_right later, List.getElem?_singleton] at found
    split at found
    · obtain rfl := Option.some.inj found
      exact .fresh other (by omega)
    · cases found

/-- The end mark comes last. -/
theorem drop (invariant : service.Invariant tasks worked) (held : service.ownership = .held) :
    Invariant { service.tell .terminate with ownership := .dropping } tasks worked := by
  obtain ⟨handles, done, progress, keeps⟩ := invariant
  rw [held] at progress
  obtain ⟨further, runs⟩ := progress.drop
  rw [tell_reaches _ runs]
  exact ⟨handles, done, further, keeps⟩

/-- The drop returns after the thread has ended. -/
theorem returned (invariant : service.Invariant tasks worked) (ended : service.activity = .ended) :
    Invariant { service with ownership := .released } tasks worked := by
  obtain ⟨inbox, activity, channels, ownership, history⟩ := service
  obtain ⟨handles, done, progress, keeps⟩ := invariant
  subst ended
  cases progress with
  | ended => exact ⟨handles, _, .ended nofun, keeps⟩

/-- The channel of the task that the thread is concerned with changes as the task does. -/
theorem keeps_modify {channels : List (ReplyChannel β)} {before after : Nat → Prop} {number : Nat}
    {task : Task β} (found : tasks[number]? = some task)
    (keeps : ∀ (ticket : Nat) (task : Task β) (channel : ReplyChannel β),
      tasks[ticket]? = some task → channels[ticket]? = some channel →
      channel.Keeps task (before ticket))
    (act : ReplyChannel β → ReplyChannel β)
    (acts : ∀ channel : ReplyChannel β, channel.Keeps task (before number) →
      (act channel).Keeps task (after number))
    (others : ∀ ticket, ticket ≠ number → (before ticket ↔ after ticket)) :
    ∀ (ticket : Nat) (task : Task β) (channel : ReplyChannel β), tasks[ticket]? = some task →
      (channels.modify number act)[ticket]? = some channel →
      channel.Keeps task (after ticket) := by
  intro ticket other channel present changed
  rw [List.getElem?_modify] at changed
  obtain ⟨earlier, held, rfl⟩ := Option.map_eq_some_iff.mp changed
  have kept := keeps ticket other earlier present held
  by_cases same : number = ticket
  · subst same
    obtain rfl := Option.some.inj (found.symm.trans present)
    rw [if_pos rfl]
    exact acts earlier kept
  · rw [if_neg same]
    rwa [← propext (others ticket (Ne.symm same))]

/-- Every step of the thread brings it further. -/
theorem work (invariant : service.Invariant tasks worked) (works : service.work = some after) :
    after.Invariant tasks (worked + 1) := by
  obtain ⟨inbox, activity, channels, ownership, history⟩ := service
  obtain ⟨handles, done, progress, keeps⟩ := invariant
  dsimp only at handles progress keeps
  cases progress with
  | idle known unreleased =>
    -- An idle thread takes the next task if there is one, and the message to stop behind the last
    -- one.
    rcases Nat.lt_or_eq_of_le known with more | rfl
    · obtain ⟨task, found⟩ : ∃ task, tasks[done]? = some task := ⟨_, List.getElem?_eq_getElem more⟩
      simp only [Service.work, queued_found found, List.cons_append] at works
      obtain rfl := Option.some.inj works
      exact ⟨handles, done, .running found unreleased, keeps⟩
    · rw [queued_done, List.nil_append] at works
      cases ownership with
      | held => cases works
      | dropping =>
        obtain rfl := Option.some.inj works
        exact ⟨handles, _, .closing rfl, keeps⟩
      | released => exact absurd rfl unreleased
  | running found unreleased =>
    obtain ⟨known, _⟩ := List.getElem?_eq_some_iff.mp found
    obtain rfl := Option.some.inj works
    refine ⟨List.length_modify .. |>.trans handles, done + 1, ?_, ?_⟩
    · have progress := @Progress.answered _ _ ownership _ known unreleased
      rw [schedule_found found] at progress
      simpa using progress
    · refine keeps_modify found keeps _ (fun channel kept => ?_) fun ticket other => by omega
      have unfinished : (done < done) = False := propext ⟨Nat.lt_irrefl done, False.elim⟩
      have finished : (done < done + 1) = True := propext ⟨fun _ => trivial, fun _ => by omega⟩
      rw [unfinished] at kept
      rw [finished]
      exact kept.send
  | @answered ticket known unreleased =>
    obtain rfl := Option.some.inj works
    refine ⟨List.length_modify .. |>.trans handles, ticket + 1, .idle known unreleased, ?_⟩
    exact keeps_modify (List.getElem?_eq_getElem known) keeps _
      (fun channel kept => kept.disconnect (Nat.lt_succ_self ticket)) fun _ _ => Iff.rfl
  | closing dropping =>
    obtain rfl := Option.some.inj works
    exact ⟨handles, _, .ended (by rw [dropping]; nofun), keeps⟩
  | ended dropped => cases works

/-- Every step preserves the invariant. -/
theorem step (invariant : service.Invariant tasks worked) {event : ServiceEvent β}
    (steps : service.step event = some after) :
    after.Invariant (tasks ++ event.task?.toList) (worked + [event].countP ServiceEvent.isWork) := by
  cases event with
  | enqueue task =>
    simp only [Service.step] at steps
    split at steps
    · obtain rfl := Option.some.inj steps
      exact invariant.enqueue ‹_› task
    all_goals cases steps
  | wait ticket =>
    simp only [ServiceEvent.task?, Option.toList_none, List.append_nil]
    exact invariant.change (fun _ _ _ _ keeps waits => keeps.wait waits) steps
  | forget ticket =>
    simp only [ServiceEvent.task?, Option.toList_none, List.append_nil]
    exact invariant.change (fun _ _ _ _ keeps forgets => keeps.forget forgets) steps
  | work =>
    simp only [ServiceEvent.task?, Option.toList_none, List.append_nil]
    exact invariant.work steps
  | drop =>
    simp only [ServiceEvent.task?, Option.toList_none, List.append_nil]
    simp only [Service.step] at steps
    split at steps
    · obtain rfl := Option.some.inj steps
      exact invariant.drop ‹_›
    all_goals cases steps
  | returned =>
    simp only [ServiceEvent.task?, Option.toList_none, List.append_nil]
    simp only [Service.step] at steps
    split at steps
    · obtain rfl := Option.some.inj steps
      exact invariant.returned ‹_›
    · cases steps

/-- Every sequence of steps preserves the invariant. -/
theorem run {events : List (ServiceEvent β)} (invariant : service.Invariant tasks worked)
    (ran : Service.run events service = some after) :
    after.Invariant (tasks ++ events.filterMap ServiceEvent.task?)
      (worked + events.countP ServiceEvent.isWork) := by
  induction events generalizing service tasks worked with
  | nil =>
    obtain rfl := Option.some.inj ran
    rwa [List.filterMap_nil, List.append_nil]
  | cons event rest inductionHypothesis =>
    obtain ⟨next, steps, goesOn⟩ := Option.bind_eq_some_iff.mp ran
    have reached := inductionHypothesis (invariant.step steps) goesOn
    have tail : (event :: rest).filterMap ServiceEvent.task? =
        event.task?.toList ++ rest.filterMap ServiceEvent.task? := by
      cases event <;> rfl
    rw [tail, ← List.singleton_append, List.countP_append, ← List.append_assoc, ← Nat.add_assoc]
    exact reached

end Invariant

section Consequences

variable {tasks : List (Task β)} {ownership : Ownership} {done worked : Nat}
  {activity : Activity β} {inbox : List (Message β)} {history : List (TaskMoment β)}

/-- Nothing has happened that does not belong to the schedule of all tasks. -/
theorem Progress.history_prefix
    (progress : Progress tasks ownership done activity inbox history worked) :
    history <+: schedule tasks tasks.length := by
  cases progress with
  | idle => exact schedule_prefix tasks done
  | running found =>
    have next := schedule_prefix tasks (done + 1)
    rw [schedule_found found, List.append_cons] at next
    exact (List.prefix_append _ _).trans next
  | answered => exact schedule_prefix tasks _
  | closing => exact List.prefix_rfl
  | ended => exact List.prefix_rfl

/-- A task takes three steps of the thread, and the end takes two. -/
theorem Progress.bounded
    (progress : Progress tasks ownership done activity inbox history worked) :
    worked ≤ 3 * tasks.length + 2 := by
  cases progress with
  | idle known => omega
  | running found =>
    obtain ⟨known, _⟩ := List.getElem?_eq_some_iff.mp found
    omega
  | answered known => omega
  | closing => omega
  | ended => omega

/-- The worker that was asked for the tasks one after the other, and for its end. -/
def asked (tasks : List (Task β)) : Ownership → Worker β
  | .held => Worker.ofTasks tasks
  | .dropping | .released => (Worker.ofTasks tasks).terminate

theorem asked_eq (tasks : List (Task β)) (ownership : Ownership) :
    asked tasks ownership = { inbox := queuedFrom tasks 0 ++ ending ownership } := by
  cases ownership <;> simp [asked, Worker.of_tasks_eq, Worker.terminate, ending]

/-- A worker that was dropped takes one step more than there are tasks. -/
theorem steps_asked (tasks : List (Task β)) (dropped : ownership ≠ .held) :
    Worker.steps (tasks.length + 1) (asked tasks ownership) = (Worker.ofTasks tasks).drop := by
  have mark : ending ownership = ([.terminate] : List (Message β)) := by
    cases ownership with
    | held => exact absurd rfl dropped
    | dropping => rfl
    | released => rfl
  rw [asked_eq, mark, Worker.steps_succ, Worker.steps_queued (Nat.le_refl _), queued_done,
    Worker.drop_of_tasks]
  rfl

/-- What the thread has done are steps of that worker. -/
theorem Progress.plain_eq {channels : List (ReplyChannel β)}
    (progress : Progress tasks ownership done activity inbox history worked) :
    ∃ count, (Service.mk inbox activity channels ownership history).plain =
      Worker.steps count (asked tasks ownership) := by
  cases progress with
  | idle known => exact ⟨done, by rw [asked_eq, Worker.steps_queued known]; rfl⟩
  | running found =>
    obtain ⟨known, _⟩ := List.getElem?_eq_some_iff.mp found
    refine ⟨done, ?_⟩
    rw [asked_eq, Worker.steps_queued (Nat.le_of_lt known), queued_found found]
    simp [plain, Worker.answersBefore, TaskMoment.answer?]
  | @answered ticket known =>
    exact ⟨ticket + 1, by rw [asked_eq, Worker.steps_queued known]; rfl⟩
  | closing dropping =>
    refine ⟨tasks.length + 1, ?_⟩
    have dropped : ownership ≠ .held := by
      rw [dropping]
      simp
    rw [steps_asked tasks dropped, Worker.drop_of_tasks]
    rfl
  | ended dropped =>
    refine ⟨tasks.length + 1, ?_⟩
    rw [steps_asked tasks dropped, Worker.drop_of_tasks]
    rfl

/-- A thread that cannot take a step has finished every task. -/
theorem Progress.of_blocked {channels : List (ReplyChannel β)}
    (progress : Progress tasks ownership done activity inbox history worked)
    (blocked : (Service.mk inbox activity channels ownership history).work = none) :
    done = tasks.length ∧ (ownership = .dropping → activity = .ended) := by
  cases progress with
  | idle known unreleased =>
    rcases Nat.lt_or_eq_of_le known with more | rfl
    · obtain ⟨task, found⟩ : ∃ task, tasks[done]? = some task := ⟨_, List.getElem?_eq_getElem more⟩
      simp only [Service.work, queued_found found, List.cons_append, reduceCtorEq] at blocked
    · refine ⟨rfl, ?_⟩
      rintro rfl
      rw [queued_done, List.nil_append] at blocked
      cases blocked
  | running => cases blocked
  | answered => cases blocked
  | closing => cases blocked
  | ended => exact ⟨rfl, fun _ => rfl⟩

end Consequences

/-- What a worker guarantees to those who enqueued the given tasks, after the thread took a number of
steps. -/
structure Orderly (service : Service β) (tasks : List (Task β)) (worked : Nat) : Prop where
  handles : service.channels.length = tasks.length
  /-- Tasks run once, in their order, and one at a time. -/
  in_order : service.history <+: schedule tasks tasks.length
  /-- A handle yields the answer of its own task, as it does when everything is done in turn. -/
  own_answer : ∀ (ticket : Nat) (channel : ReplyChannel β), service.channels[ticket]? = some channel →
    ∃ task, tasks[ticket]? = some task ∧ ∀ answer, channel.handle = .yielded answer →
      answer = task.result ∧ answer = (Worker.ofTasks tasks).drop.wait ticket
  never_cancelled : ∀ channel ∈ service.channels, channel.handle ≠ .yielded (.error .cancelled)
  /-- When the drop has returned, every task has run. -/
  all_done : service.ownership = .released → service.history = schedule tasks tasks.length ∧
    service.plain = (Worker.ofTasks tasks).drop
  /-- A thread that cannot take a step blocks nobody: every pending handle has its answer, and a drop
  can return. -/
  available : service.step .work = none →
    (∀ (ticket : Nat) (channel : ReplyChannel β), service.channels[ticket]? = some channel →
      channel.handle = .pending → ∃ task changed after, tasks[ticket]? = some task ∧
        service.step (.wait ticket) = some after ∧ after.channels[ticket]? = some changed ∧
        changed.handle = .yielded task.result) ∧
    (service.ownership = .dropping → ∃ after, service.step .returned = some after)
  /-- The thread cannot take steps forever without new tasks. -/
  bounded : worked ≤ 3 * tasks.length + 2
  /-- The thread takes the steps of a worker that was asked for everything in turn. -/
  steps : ∃ count, service.plain = Worker.steps count (asked tasks service.ownership)

/-- No task is cancelled by its own answer. -/
theorem result_not_cancelled (task : Task β) : task.result ≠ .error .cancelled := by
  cases task <;> nofun

/-- The invariant guarantees it. -/
theorem Invariant.orderly {service : Service β} {tasks : List (Task β)} {worked : Nat}
    (invariant : service.Invariant tasks worked) : service.Orderly tasks worked := by
  obtain ⟨inbox, activity, channels, ownership, history⟩ := service
  obtain ⟨handles, done, progress, keeps⟩ := invariant
  dsimp only at handles progress keeps
  have known (ticket : Nat) (channel : ReplyChannel β) (found : channels[ticket]? = some channel) :
      ∃ task, tasks[ticket]? = some task ∧ channel.Keeps task (ticket < done) := by
    obtain ⟨inside, _⟩ := List.getElem?_eq_some_iff.mp found
    have present : tasks[ticket]? = some tasks[ticket] := List.getElem?_eq_getElem (handles ▸ inside)
    exact ⟨_, present, keeps ticket _ channel present found⟩
  refine ⟨handles, progress.history_prefix, ?_, ?_, ?_, ?_, progress.bounded, progress.plain_eq⟩
  · intro ticket channel found
    obtain ⟨task, present, kept⟩ := known ticket channel found
    refine ⟨task, present, fun answer yields => ?_⟩
    rw [kept.yielded answer yields, Worker.wait_drop present]
    exact ⟨rfl, rfl⟩
  · intro channel member yields
    obtain ⟨ticket, found⟩ := List.mem_iff_getElem?.mp member
    obtain ⟨task, _, kept⟩ := known ticket channel found
    exact result_not_cancelled task (kept.yielded _ yields).symm
  · rintro rfl
    cases progress with
    | ended dropped => exact ⟨rfl, (Worker.drop_of_tasks tasks).symm⟩
    | closing dropping => cases dropping
    | idle _ unreleased => exact absurd rfl unreleased
    | running _ unreleased => exact absurd rfl unreleased
    | answered _ unreleased => exact absurd rfl unreleased
  · intro blocked
    obtain ⟨rfl, ended⟩ := progress.of_blocked blocked
    constructor
    · intro ticket channel found pending
      obtain ⟨task, present, kept⟩ := known ticket channel found
      obtain ⟨finished, _⟩ := List.getElem?_eq_some_iff.mp present
      obtain ⟨inside, _⟩ := List.getElem?_eq_some_iff.mp found
      let changed := { channel with content := none, handle := .yielded task.result }
      refine ⟨task, changed, ⟨inbox, activity, channels.set ticket changed, ownership, history⟩,
        present, ?_, List.getElem?_set_self inside, rfl⟩
      simp only [Service.step, Service.change, found, Option.bind_eq_bind, Option.bind_some,
        kept.wait_finished finished pending]
      rfl
    · rintro rfl
      obtain rfl := ended rfl
      exact ⟨_, rfl⟩

/-- However enqueues, waits, dropped handles, the steps of the thread and the drop of the worker
follow each other, the worker stays orderly: tasks run exactly once, in the order in which they were
enqueued and one at a time, each handle that is waited on yields the answer of its own task, no task
is cancelled, and when the drop returns everything that was enqueued has run. -/
theorem worker_stays_orderly {events : List (ServiceEvent β)} {service : Service β}
    (ran : Service.run events {} = some service) :
    service.Orderly (events.filterMap ServiceEvent.task?) (events.countP ServiceEvent.isWork) := by
  have invariant := Invariant.start.run ran
  rw [List.nil_append, Nat.zero_add] at invariant
  exact invariant.orderly

/-- The handle of a panicking task is waited on while the next task runs, the handle of that one is
dropped before it has its answer, and the worker is dropped with a task in its queue. -/
def busyDay : List (ServiceEvent Nat) :=
  [.enqueue (.error (.text "boom")), .enqueue (.ok 7), .work, .work, .work, .work, .wait 0,
    .forget 1, .enqueue (.ok 42), .drop, .work, .work, .work, .work, .work, .work, .work, .returned,
    .wait 2]

/-- After a busy day every task has run, and no handle was told that its task was cancelled. -/
theorem busy_day_orderly : ∃ service, Service.run busyDay {} = some service ∧
    service.history = schedule [.error (.text "boom"), .ok 7, .ok 42] 3 ∧
    service.plain = (Worker.ofTasks [.error (.text "boom"), .ok 7, .ok 42]).drop ∧
    ∀ channel ∈ service.channels, channel.handle ≠ .yielded (.error .cancelled) := by
  have ran : Service.run busyDay {} = some _ := rfl
  have orderly := worker_stays_orderly ran
  exact ⟨_, ran, (orderly.all_done rfl).1, (orderly.all_done rfl).2, orderly.never_cancelled⟩

end Service

end ProgramSearch
