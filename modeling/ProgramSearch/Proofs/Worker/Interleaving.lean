import ProgramSearch.Proofs.Worker.Process

/-!
# Interleavings of workers

The main thread enqueues tasks at workers and waits for their answers. Meanwhile the workers take
the steps of their tasks in any order. A worker runs its tasks one after the other. All of them, and
the main thread, use one pool of pages.

When every task settles on an answer, whatever the others do to the pool, then so does the main
thread: every order of steps leads to the same result, after the same number of steps at most, and
none gets stuck before.
-/

namespace ProgramSearch

variable {α T R S : Type}

/-- What the main thread does. -/
inductive Plan (α T R : Type) : Type 1 where
  | finish (result : R)
  /-- Do something itself. -/
  | perform {β : Type} (process : Process α β) (next : β → Plan α T R)
  /-- Enqueue a task at a worker. Its answer has a ticket. -/
  | enqueue (worker : Nat) (task : Process α T) (next : Nat → Plan α T R)
  /-- Wait for an answer. -/
  | await (ticket : Nat) (next : T → Plan α T R)

namespace Plan

/-- Go on with the result. -/
def bind (next : R → Plan α T S) : Plan α T R → Plan α T S
  | finish result => next result
  | perform process rest => perform process fun value => (rest value).bind next
  | enqueue worker task rest => enqueue worker task fun ticket => (rest ticket).bind next
  | await ticket rest => await ticket fun answer => (rest answer).bind next

instance : Monad (Plan α T) where
  pure := finish
  bind plan next := plan.bind next

end Plan

/-- How far a task is. -/
inductive TaskState (α T : Type) where
  | running (process : Process α T)
  | finished (answer : T)

/-- A task and the number of its worker. -/
structure Duty (α T : Type) where
  worker : Nat
  state : TaskState α T

/-- All threads with the pool that they share. -/
structure Scene (α T R : Type) where
  pool : PagePool α
  /-- All tasks that were enqueued, by their tickets. -/
  duties : List (Duty α T)
  main : Plan α T R

namespace Scene

variable [Number α]

/-- A worker has finished all of the given tasks that are its own. -/
def Idle (worker : Nat) (duties : List (Duty α T)) : Prop :=
  ∀ duty ∈ duties, duty.worker = worker → ∃ answer, duty.state = .finished answer

/-- One step of one of the threads. -/
inductive Step : Scene α T R → Scene α T R → Prop
  /-- A worker goes on with its first task that has not finished. -/
  | work {pool rest : PagePool α} {before others : List (Duty α T)} {worker : Nat}
      {process after : Process α T} {main : Plan α T R} :
      Idle worker before → process.Step pool after rest →
        Step ⟨pool, before ++ ⟨worker, .running process⟩ :: others, main⟩
          ⟨rest, before ++ ⟨worker, .running after⟩ :: others, main⟩
  /-- A worker finishes a task. -/
  | complete {pool : PagePool α} {before others : List (Duty α T)} {worker : Nat} {answer : T}
      {main : Plan α T R} :
      Idle worker before →
        Step ⟨pool, before ++ ⟨worker, .running (.done answer)⟩ :: others, main⟩
          ⟨pool, before ++ ⟨worker, .finished answer⟩ :: others, main⟩
  | perform {β : Type} {pool rest : PagePool α} {duties : List (Duty α T)}
      {process after : Process α β} {next : β → Plan α T R} :
      process.Step pool after rest →
        Step ⟨pool, duties, .perform process next⟩ ⟨rest, duties, .perform after next⟩
  | performed {β : Type} {pool : PagePool α} {duties : List (Duty α T)} {value : β}
      {next : β → Plan α T R} :
      Step ⟨pool, duties, .perform (.done value) next⟩ ⟨pool, duties, next value⟩
  | enqueue {pool : PagePool α} {duties : List (Duty α T)} {worker : Nat} {task : Process α T}
      {next : Nat → Plan α T R} :
      Step ⟨pool, duties, .enqueue worker task next⟩
        ⟨pool, duties ++ [⟨worker, .running task⟩], next duties.length⟩
  /-- The main thread receives an answer that has arrived. -/
  | await {pool : PagePool α} {duties : List (Duty α T)} {ticket worker : Nat} {answer : T}
      {next : T → Plan α T R} :
      duties[ticket]? = some ⟨worker, .finished answer⟩ →
        Step ⟨pool, duties, .await ticket next⟩ ⟨pool, duties, next answer⟩

/-- A number of steps of any threads. -/
inductive Steps : Scene α T R → Nat → Scene α T R → Prop
  | start (scene : Scene α T R) : Steps scene 0 scene
  | next {first last after : Scene α T R} {count : Nat} :
      Steps first count last → Step last after → Steps first (count + 1) after

end Scene

/-- The answer that a task comes to, after a number of steps. -/
inductive TaskState.Settles [Number α] : TaskState α T → Nat → T → Prop
  | running {process : Process α T} {count : Nat} {answer : T} :
      process.Settles count answer → Settles (.running process) (count + 1) answer
  | finished (answer : T) : Settles (.finished answer) 0 answer

/-- The answers that tasks come to, after a number of steps of all of them. -/
inductive AllSettle [Number α] : List (Duty α T) → Nat → List T → Prop
  | nil : AllSettle [] 0 []
  | cons {duty : Duty α T} {duties : List (Duty α T)} {count more : Nat} {answer : T}
      {answers : List T} :
      duty.state.Settles count answer → AllSettle duties more answers →
        AllSettle (duty :: duties) (count + more) (answer :: answers)

/-- The result that the main thread comes to, after a number of steps of itself and of the tasks
that it will enqueue, when the tasks that were enqueued come to the given answers. -/
inductive Plan.Settles [Number α] : List T → Plan α T R → Nat → R → Prop
  | finish {answers : List T} (result : R) : Settles answers (.finish result) 0 result
  | perform {β : Type} {answers : List T} {process : Process α β} {next : β → Plan α T R}
      {count more : Nat} {value : β} {result : R} :
      process.Settles count value → Settles answers (next value) more result →
        Settles answers (.perform process next) (count + more + 1) result
  | enqueue {answers : List T} {worker : Nat} {task : Process α T} {next : Nat → Plan α T R}
      {count more : Nat} {answer : T} {result : R} :
      task.Settles count answer → Settles (answers ++ [answer]) (next answers.length) more result →
        Settles answers (.enqueue worker task next) (count + more + 2) result
  | await {answers : List T} {ticket : Nat} {next : T → Plan α T R} {answer : T} {count : Nat}
      {result : R} :
      answers[ticket]? = some answer → Settles answers (next answer) count result →
        Settles answers (.await ticket next) (count + 1) result

/-- The result that all threads together come to, and the number of steps that they have left. -/
structure Scene.Settles [Number α] (scene : Scene α T R) (count : Nat) (result : R) : Prop where
  blank : scene.pool.Blank
  settles : ∃ answers work rest, AllSettle scene.duties work answers ∧
    scene.main.Settles answers rest result ∧ count = work + rest

section Tasks

variable [Number α] {duties others : List (Duty α T)} {count more : Nat} {answers : List T}

theorem AllSettle.length_eq (settle : AllSettle duties count answers) :
    duties.length = answers.length := by
  induction settle with
  | nil => rfl
  | cons _ _ inductionHypothesis =>
    rw [List.length_cons, List.length_cons, inductionHypothesis]

/-- A task that is enqueued behind others comes to its answer as well. -/
theorem AllSettle.snoc (settle : AllSettle duties count answers) {duty : Duty α T} {answer : T}
    (settles : duty.state.Settles more answer) :
    AllSettle (duties ++ [duty]) (count + more) (answers ++ [answer]) := by
  induction settle with
  | nil =>
    rw [Nat.zero_add]
    exact .cons settles .nil
  | cons first _ inductionHypothesis =>
    rw [Nat.add_assoc]
    exact .cons first inductionHypothesis

/-- One task can be replaced by another one that comes to the same answer. -/
theorem AllSettle.replace {before : List (Duty α T)} {duty : Duty α T}
    (settle : AllSettle (before ++ duty :: others) count answers) :
    ∃ own rest answer, count = own + rest ∧ duty.state.Settles own answer ∧
      ∀ (other : Duty α T) (fewer : Nat), other.state.Settles fewer answer →
        AllSettle (before ++ other :: others) (fewer + rest) answers := by
  induction before generalizing count answers with
  | nil =>
    cases settle with
    | cons settles rest => exact ⟨_, _, _, rfl, settles, fun other fewer same => .cons same rest⟩
  | cons first before inductionHypothesis =>
    cases settle with
    | @cons _ _ early _ _ _ settles rest =>
      obtain ⟨own, left, answer, rfl, mine, replaced⟩ := inductionHypothesis rest
      refine ⟨own, early + left, answer, by omega, mine, fun other fewer same => ?_⟩
      rw [Nat.add_left_comm]
      exact .cons settles (replaced other fewer same)

/-- The answer of a task that has finished is the one that it comes to. -/
theorem AllSettle.answered (settle : AllSettle duties count answers) {ticket worker : Nat}
    {answer : T} (finished : duties[ticket]? = some ⟨worker, .finished answer⟩) :
    answers[ticket]? = some answer := by
  induction settle generalizing ticket with
  | nil => cases finished
  | cons settles _ inductionHypothesis =>
    cases ticket with
    | zero =>
      obtain rfl := Option.some.inj finished
      cases settles
      rfl
    | succ ticket => exact inductionHypothesis finished

/-- Unless all tasks have finished, the first one that has not is the next one of its worker. -/
theorem AllSettle.unfinished (settle : AllSettle duties count answers) :
    (∀ duty ∈ duties, ∃ answer, duty.state = .finished answer) ∨
      ∃ before worker process others, duties = before ++ ⟨worker, .running process⟩ :: others ∧
        (∀ duty ∈ before, ∃ answer, duty.state = .finished answer) ∧
        ∃ steps answer, process.Settles steps answer := by
  induction settle with
  | nil => exact .inl nofun
  | @cons duty duties _ _ _ _ settles _ inductionHypothesis =>
    obtain ⟨worker, state⟩ := duty
    cases settles with
    | running settles =>
      exact .inr ⟨[], worker, _, duties, rfl, nofun, _, _, settles⟩
    | finished =>
      rcases inductionHypothesis with all | ⟨before, next, process, others, rfl, earlier, steps⟩
      · left
        intro other member
        rcases List.mem_cons.mp member with rfl | rest
        · exact ⟨_, rfl⟩
        · exact all other rest
      · right
        refine ⟨⟨worker, .finished _⟩ :: before, next, process, others, rfl, ?_, steps⟩
        intro other member
        rcases List.mem_cons.mp member with rfl | rest
        · exact ⟨_, rfl⟩
        · exact earlier other rest

end Tasks

namespace Scene

variable [Number α] {scene after : Scene α T R} {count : Nat} {result : R}

/-- Whoever takes a step, the threads come to the same result with one step less to go. -/
theorem Settles.step (settled : scene.Settles count result) (steps : scene.Step after) :
    ∃ fewer, count = fewer + 1 ∧ after.Settles fewer result := by
  obtain ⟨blank, answers, work, rest, settle, main, rfl⟩ := settled
  -- A step of one thread is a step of its own process. The answers that are still to come stay
  -- fixed.
  cases steps with
  | work idle steps =>
    obtain ⟨own, left, answer, rfl, mine, replaced⟩ := settle.replace
    cases mine with
    | running settles =>
      obtain ⟨fewer, rfl, goesOn, clean⟩ := settles.step blank steps
      exact ⟨fewer + 1 + left + rest, by omega, clean, answers, _, _,
        replaced _ _ (.running goesOn), main, rfl⟩
  | complete idle =>
    obtain ⟨own, left, answer, rfl, mine, replaced⟩ := settle.replace
    cases mine with
    | running settles =>
      cases settles
      exact ⟨0 + left + rest, by omega, blank, answers, _, _, replaced _ _ (.finished _), main, rfl⟩
  | perform steps =>
    cases main with
    | perform settles goesOn =>
      obtain ⟨fewer, rfl, closer, clean⟩ := settles.step blank steps
      exact ⟨_, by omega, clean, answers, work, _, settle, .perform closer goesOn, rfl⟩
  | performed =>
    cases main with
    | perform settles goesOn =>
      cases settles
      exact ⟨_, by omega, blank, answers, work, _, settle, goesOn, rfl⟩
  | enqueue =>
    cases main with
    | enqueue settles goesOn =>
      rw [← settle.length_eq] at goesOn
      exact ⟨_, by omega, blank, _, _, _, settle.snoc (.running settles), goesOn, rfl⟩
  | await finished =>
    cases main with
    | await known goesOn =>
      obtain rfl := Option.some.inj (known.symm.trans (settle.answered finished))
      exact ⟨_, by omega, blank, answers, work, _, settle, goesOn, rfl⟩

/-- Before the main thread has its result, some thread can take a step. -/
theorem Settles.progress (settled : scene.Settles count result) :
    scene.main = .finish result ∨ ∃ after, scene.Step after := by
  obtain ⟨pool, duties, main⟩ := scene
  obtain ⟨blank, answers, work, rest, settle, settles, rfl⟩ := settled
  cases settles with
  | finish => exact .inl rfl
  | perform settles goesOn =>
    rcases settles.progress pool with rfl | ⟨after, rest, steps⟩
    · exact .inr ⟨_, .performed⟩
    · exact .inr ⟨_, .perform steps⟩
  | enqueue => exact .inr ⟨_, .enqueue⟩
  | @await _ ticket _ answer _ _ known goesOn =>
    right
    rcases settle.unfinished with all | ⟨before, worker, process, others, rfl, earlier, settles⟩
    · -- Every answer has arrived, the one that is awaited among them.
      obtain ⟨inside, _⟩ := List.getElem?_eq_some_iff.mp known
      obtain ⟨⟨worker, state⟩, present⟩ : ∃ duty, duties[ticket]? = some duty :=
        ⟨_, List.getElem?_eq_getElem (settle.length_eq ▸ inside)⟩
      obtain ⟨own, rfl⟩ := all _ (List.mem_of_getElem? present)
      exact ⟨_, .await present⟩
    · obtain ⟨steps, own, settles⟩ := settles
      have idle : Idle worker before := fun duty member _ => earlier duty member
      rcases settles.progress pool with rfl | ⟨after, rest, steps⟩
      · exact ⟨_, .complete idle⟩
      · exact ⟨_, .work idle steps⟩

/-- What is the same for all orders in which threads take their steps. -/
structure Determined (scene : Scene α T R) (result : R) : Prop where
  /-- The main thread has no other result. -/
  same : ∀ count after other, scene.Steps count after → after.main = .finish other →
    other = result
  /-- It does not wait forever for its result. -/
  goes_on : ∀ count after, scene.Steps count after →
    after.main = .finish result ∨ ∃ next, after.Step next
  ends : ∃ bound, ∀ count after, scene.Steps count after → count ≤ bound
  returns : ∃ count after, scene.Steps count after ∧ after.main = .finish result
  /-- Pages in the pool carry nothing from one use to another. -/
  blank : ∀ count after, scene.Steps count after → after.pool.Blank

/-- Every number of steps leaves as many fewer to go. The induction is on the steps. -/
theorem Settles.steps (settled : scene.Settles count result) {taken : Nat}
    (steps : scene.Steps taken after) :
    ∃ fewer, count = fewer + taken ∧ after.Settles fewer result := by
  induction steps with
  | start => exact ⟨count, rfl, settled⟩
  | next _ last inductionHypothesis =>
    obtain ⟨left, rfl, closer⟩ := inductionHypothesis
    obtain ⟨fewer, rfl, closest⟩ := closer.step last
    exact ⟨fewer, by omega, closest⟩

/-- Whatever steps were taken, others lead to the result. The induction is on the number of steps
that are left. -/
theorem Settles.returns {fewer taken : Nat} (left : after.Settles fewer result)
    (steps : scene.Steps taken after) :
    ∃ total last, scene.Steps total last ∧ last.main = .finish result := by
  induction fewer generalizing taken after with
  | zero =>
    rcases left.progress with finished | ⟨next, step⟩
    · exact ⟨taken, after, steps, finished⟩
    · obtain ⟨fewer, impossible, _⟩ := left.step step
      cases impossible
  | succ fewer inductionHypothesis =>
    rcases left.progress with finished | ⟨next, step⟩
    · exact ⟨taken, after, steps, finished⟩
    · obtain ⟨_, same, closer⟩ := left.step step
      obtain rfl := Nat.succ.inj same
      exact inductionHypothesis closer (.next steps step)

/-- Threads that settle on a result do so in every order of steps. -/
theorem Settles.determined (settled : scene.Settles count result) : scene.Determined result := by
  constructor
  case same =>
    intro taken after other steps finished
    obtain ⟨fewer, _, _, answers, work, rest, _, settles, _⟩ := settled.steps steps
    rw [finished] at settles
    cases settles
    rfl
  case goes_on =>
    intro taken after steps
    obtain ⟨_, _, closer⟩ := settled.steps steps
    exact closer.progress
  case ends =>
    refine ⟨count, fun taken after steps => ?_⟩
    obtain ⟨fewer, rfl, _⟩ := settled.steps steps
    exact Nat.le_add_left taken fewer
  case returns => exact settled.returns (.start scene)
  case blank =>
    intro taken after steps
    obtain ⟨_, _, closer⟩ := settled.steps steps
    exact closer.blank

end Scene

end ProgramSearch
