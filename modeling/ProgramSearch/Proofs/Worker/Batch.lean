import ProgramSearch.Proofs.Worker.Interleaving
import ProgramSearch.Training.Climb

/-!
# Batches of tasks

The main thread enqueues a batch of tasks and joins them: it waits for their answers in the order
of the tasks, passes over those that broke off, and gives up at the first fault. What it gets is
what it would have got from the answers of all tasks, if they had run one after the other.
-/

namespace ProgramSearch

variable {α β T R S : Type}

/-- What the answers of a batch report together. The first fault, in the order of the tasks,
wins. -/
def joined (read : T → List β) : List (Except Failure T) → Except Fault (List β)
  | [] => .ok []
  | .ok value :: rest => (joined read rest).map (read value ++ ·)
  | .error .crash :: rest => joined read rest
  | .error (.fault cause) :: _ => .error cause

/-- Whoever joins answers by these rules gets what they report together. -/
theorem joined_unique {read : T → List β}
    (join : List (Except Failure T) → Except Fault (List β)) (nothing : join [] = .ok [])
    (returned : ∀ value rest, join (.ok value :: rest) = (join rest).map (read value ++ ·))
    (crashed : ∀ rest, join (.error .crash :: rest) = join rest)
    (failed : ∀ cause rest, join (.error (.fault cause) :: rest) = .error cause)
    (answers : List (Except Failure T)) : joined read answers = join answers := by
  induction answers with
  | nil => exact nothing.symm
  | cons answer rest inductionHypothesis =>
    cases answer with
    | ok value => rw [joined, inductionHypothesis, returned]
    | error failure =>
      cases failure with
      | crash => rw [joined, inductionHypothesis, crashed]
      | fault cause => rw [joined, failed]

/-- Answers may be converted before they are read. -/
theorem joined_map (read : T → List β) (convert : R → T) (answers : List (Except Failure R)) :
    joined (fun value => read (convert value)) answers =
      joined read (answers.map (Except.map convert)) :=
  joined_unique (fun answers => joined read (answers.map (Except.map convert))) rfl
    (fun _ _ => rfl) (fun _ => rfl) (fun _ _ => rfl) answers

/-- The candidates of a round are what its answers report. -/
theorem joined_candidates {P : Type} (answers : List (Except Failure (Candidate P α))) :
    joined (fun candidate => [candidate]) answers = joinRound answers :=
  joined_unique joinRound rfl (fun _ _ => rfl) (fun _ => rfl) (fun _ _ => rfl) answers

namespace Plan

/-- Enqueue one task for each worker, from a given one on, and go on with the tickets. -/
def handOut (next : List Nat → Plan α T R) : Nat → List (Process α T) → Plan α T R
  | _, [] => next []
  | worker, task :: rest => .enqueue worker task fun ticket =>
    handOut (fun tickets => next (ticket :: tickets)) (worker + 1) rest

/-- Wait for the answers to tickets. -/
def gather (read : T → List β) : List Nat → Plan α (Except Failure T) (Except Fault (List β))
  | [] => pure (.ok [])
  | ticket :: rest => .await ticket fun
    | .ok value => do
      let others ← gather read rest
      pure (others.map (read value ++ ·))
    | .error .crash => gather read rest
    | .error (.fault cause) => pure (.error cause)

/-- Enqueue a batch of tasks, one for each worker, and join them. -/
def batch (read : T → List β) (tasks : List (Process α (Except Failure T))) :
    Plan α (Except Failure T) (Except Fault (List β)) :=
  handOut (gather read) 0 tasks

variable [Number α]

/-- A plan comes to a result, whatever was enqueued before. -/
def Comes (plan : Plan α T R) (result : R) : Prop :=
  ∀ answers, ∃ count, plan.Settles answers count result

section Rules

variable {plan : Plan α T R} {result : R} {next : R → Plan α T S} {final : S}

/-- What follows a plan starts with its result. -/
theorem Settles.bind {answers : List T} {count : Nat} (settles : plan.Settles answers count result)
    (next : R → Plan α T S) (goesOn : (next result).Comes final) :
    ∃ more, (plan.bind next).Settles answers more final := by
  induction settles with
  | finish => exact goesOn _
  | perform settles _ inductionHypothesis =>
    obtain ⟨_, rest⟩ := inductionHypothesis goesOn
    exact ⟨_, .perform settles rest⟩
  | enqueue settles _ inductionHypothesis =>
    obtain ⟨_, rest⟩ := inductionHypothesis goesOn
    exact ⟨_, .enqueue settles rest⟩
  | await known _ inductionHypothesis =>
    obtain ⟨_, rest⟩ := inductionHypothesis goesOn
    exact ⟨_, .await known rest⟩

theorem Comes.pure (result : R) : (Pure.pure result : Plan α T R).Comes result :=
  fun _ => ⟨0, .finish result⟩

theorem Comes.bind (comes : plan.Comes result) (goesOn : (next result).Comes final) :
    (plan >>= next).Comes final := by
  intro answers
  obtain ⟨_, settles⟩ := comes answers
  exact settles.bind next goesOn

theorem Comes.perform {process : Process α β} {value : β} {next : β → Plan α T R}
    (yields : process.Yields value) (goesOn : (next value).Comes result) :
    (Plan.perform process next).Comes result := by
  intro answers
  obtain ⟨_, settles⟩ := yields
  obtain ⟨_, rest⟩ := goesOn answers
  exact ⟨_, .perform settles rest⟩

/-- Threads that start without any tasks come to what the plan of the main thread comes to. -/
theorem Comes.determined (comes : plan.Comes result) {pool : PagePool α} (blank : pool.Blank) :
    Scene.Determined ⟨pool, [], plan⟩ result := by
  obtain ⟨count, settles⟩ := comes []
  exact Scene.Settles.determined ⟨blank, [], 0, count, .nil, settles, rfl⟩

end Rules

/-- Tasks that are handed out come to their answers, and what follows can await them. Their tickets
are consecutive. The induction is on the tasks. -/
theorem hand_out_settles {tasks : List (Process α T)} {answers : List T}
    (yield : Process.AllYield tasks answers) (before : List T) (next : List Nat → Plan α T R)
    (worker : Nat) {count : Nat} {result : R}
    (goesOn : (next (List.range' before.length answers.length)).Settles (before ++ answers) count
      result) :
    ∃ more, (handOut next worker tasks).Settles before more result := by
  induction yield generalizing before next worker with
  | nil =>
    rw [List.append_nil] at goesOn
    exact ⟨_, goesOn⟩
  | @cons _ answer _ answers yields _ inductionHypothesis =>
    obtain ⟨_, settles⟩ := yields
    have rest : (before ++ answer :: answers) = (before ++ [answer]) ++ answers := by simp
    have tickets : List.range' before.length (answer :: answers).length =
        before.length :: List.range' (before ++ [answer]).length answers.length := by
      rw [List.length_append, List.length_cons, List.range'_succ]
      rfl
    rw [rest, tickets] at goesOn
    obtain ⟨_, others⟩ := inductionHypothesis (before ++ [answer])
      (fun tickets => next (before.length :: tickets)) (worker + 1) goesOn
    exact ⟨_, .enqueue settles others⟩

/-- Gathering answers comes to what they report together. The induction is on the answers that are
left. -/
theorem gather_settles (read : T → List β) (before answers : List (Except Failure T)) :
    ∃ count, (gather read (List.range' before.length answers.length) : Plan α _ _).Settles
      (before ++ answers) count (joined read answers) := by
  induction answers generalizing before with
  | nil => exact ⟨0, .finish _⟩
  | cons answer rest inductionHypothesis =>
    have known : (before ++ answer :: rest)[before.length]? = some answer := by
      simp
    obtain ⟨count, others⟩ := inductionHypothesis (before ++ [answer])
    rw [List.length_append, List.append_assoc] at others
    cases answer with
    | ok value =>
      obtain ⟨_, settles⟩ := others.bind (fun found => pure (found.map (read value ++ ·))) (.pure _)
      exact ⟨_, .await known settles⟩
    | error failure =>
      cases failure with
      | crash => exact ⟨_, .await known others⟩
      | fault cause => exact ⟨_, .await known (.finish _)⟩

/-- A batch comes to what the answers of its tasks report together. -/
theorem batch_comes (read : T → List β) {tasks : List (Process α (Except Failure T))}
    {answers : List (Except Failure T)} (yield : Process.AllYield tasks answers) :
    (batch read tasks).Comes (joined read answers) := by
  intro before
  obtain ⟨_, gathered⟩ := @gather_settles α _ _ _ read before answers
  exact hand_out_settles yield before (gather read) 0 gathered

end Plan

end ProgramSearch
