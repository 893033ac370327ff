import ProgramSearch.Decimal.Layout
import ProgramSearch.Training.Climb

/-!
# Trainings as text
-/

namespace ProgramSearch

def scoreText (score : Float) : String := Decimal.Layout.plain.write score

def Notice.display : Notice Float → String
  | .solved round => s!"Solved in round {round}"
  | .improved round before after size =>
    let suffix :=
      match size with
      | some nodes => s!" ({nodes} node(s))"
      | none => ""
    s!"Round {round}: elite improved from " ++ scoreText before ++ " to " ++ scoreText after ++
      suffix
  | .solvedByRefinement round => s!"Solved by block refinement in round {round}"
  | .refined round before after =>
    s!"Round {round}: refinement improved elite from " ++ scoreText before ++ " to " ++
      scoreText after
  | .exhausted score => "Iteration budget exhausted at score " ++ scoreText score

namespace Outcome

variable {P : Type}

def isSolved (outcome : Outcome P Float) : Bool := outcome.score == 1.0 / 0.0

def display (outcome : Outcome P Float) : String :=
  let mark := if outcome.isSolved then " (solved)" else ""
  "score " ++ scoreText outcome.score ++
    s!" after {outcome.rounds} round(s), {outcome.improvements} improvement(s){mark}"

end Outcome

end ProgramSearch
