import ProgramSearch.CommandLine.Options
import ProgramSearch.Document.Tree
import ProgramSearch.Program.Text
import ProgramSearch.Training.Task
import ProgramSearch.Training.Text
import ProgramSearch.Tree.Text

/-!
# What a search reports

A search tells its notices, describes the program that it found and may store it. A search
that fails tells why. What is written where depends on the command line only, and on the
streams of the system if the command line gives no seed.
-/

namespace ProgramSearch.CommandLine

/-- The lines of a search and what it stores. -/
structure Report where
  /-- The lines for the standard output. -/
  lines : List String
  /-- The fault that ended the search, or the document of the program that was found. -/
  result : Except Fault String

/-- A line of the log. -/
def info (text : String) : String := "[INFO] " ++ text

/-- The lines that tell of a fatal fault. -/
def fatal (cause : Fault) : List String :=
  ["", "[ERROR] Fatal exception during execution -> " ++ cause.message, ""]

def schedule (options : Options) : TrainingSchedule :=
  let usual : TrainingSchedule := {}
  { usual with
    iterations := options.iterations.getD usual.iterations
    threads := options.threads.getD usual.threads
    speculationThreshold := options.speculate.getD usual.speculationThreshold
    seed := options.seed.map UInt64.ofNat }

/-- The report of a training, given how its outcome is described and stored. -/
def reportOf {P : Type} (describe : Outcome P Float → List String) (store : P → String)
    (training : Training P Float) : Report :=
  let told := training.notices.map fun notice => info notice.display
  match training.result with
  | .ok outcome => ⟨told ++ describe outcome, .ok (store outcome.program)⟩
  | .error (.fault cause) => ⟨told, .error cause⟩
  | .error .crash => ⟨told, .error (.internal "the search broke off")⟩

/-- Search for a straight-line program that adds two numbers from `[-10, 10)`. -/
def searchScalar (schedule : TrainingSchedule) (entropy : Entropy) : Report :=
  match ScalarTrainer.make { schedule } Reward.addition (DataSource.ofRange 2 (-10.0) 10.0) with
  | .error cause => ⟨[], .error cause⟩
  | .ok trainer =>
    reportOf (fun outcome => outcome.display :: outcome.program.lines) Document.writeProgram
      (trainer.train entropy none)

/-- Search for a control tree that adds up the numbers from one to its argument. The tree is
followed by an empty line. -/
def searchControl (schedule : TrainingSchedule) (entropy : Entropy) : Report :=
  match ControlTrainer.make { schedule } Trial.accumulation with
  | .error cause => ⟨[], .error cause⟩
  | .ok trainer =>
    reportOf
      (fun outcome =>
        (outcome.display ++ s!", {outcome.program.size} node(s)") ::
          (outcome.program.lines 0 ++ [""]))
      Document.writeTree (trainer.train entropy none)

/-- Run the search of a command line. -/
def run (options : Options) (search : Search) (entropy : Entropy) : Report :=
  match search with
  | .scalar => searchScalar (schedule options) entropy
  | .control => searchControl (schedule options) entropy

/-- What a search writes: lines for the standard output, lines for the standard error, and a
document with the path that it is stored at. -/
structure Output where
  lines : List String
  errors : List String
  stored : Option (String × String)

/-- The output of a search, given at which paths a document can be stored. -/
def Report.output (report : Report) (save : Option String) (canStore : String → Bool) : Output :=
  match report.result, save with
  | .error cause, _ => ⟨report.lines, fatal cause, none⟩
  | .ok _, none => ⟨report.lines, [], none⟩
  | .ok document, some path =>
    if canStore path then
      ⟨report.lines ++ [info ("Saved program to " ++ path)], [], some (path, document)⟩
    else ⟨report.lines, fatal .inputOutput, none⟩

/-- The name of the file in the current directory that a path leads to, if it leads to one. The
name may stand behind the mark of the current directory; the two names that every directory has
are not names of files. -/
def localName? (path : String) : Option String :=
  let parts :=
    match path.splitOn "/" with
    | "." :: rest => rest.dropWhile fun (part : String) => part.isEmpty || part == "."
    | parts => parts
  match parts with
  | [name] => if name.isEmpty || name == "." || name == ".." then none else some name
  | _ => none

end ProgramSearch.CommandLine
