import ProgramSearch.Main
import ProgramSearch.Worker
import ProgramSearch.CommandLine.Report
import ProgramSearch.Proofs.Program.Acceptance
import ProgramSearch.Proofs.Program.Verdict
import ProgramSearch.Document.Odds
import ProgramSearch.Proofs.Program.Execution
import ProgramSearch.Proofs.Program.Knowledge
import ProgramSearch.Proofs.Program.Speculation
import ProgramSearch.Proofs.Tree.Acceptance
import ProgramSearch.Proofs.Tree.Lockstep
import ProgramSearch.Proofs.Tree.Speculation
import ProgramSearch.Proofs.Number.Laws
import ProgramSearch.Proofs.Number.Double
import ProgramSearch.Proofs.Program.Simplification
import ProgramSearch.Proofs.Program.Optimization
import ProgramSearch.Proofs.Program.NormalForm
import ProgramSearch.Proofs.Program.Soundness
import ProgramSearch.Proofs.Number.Small
import ProgramSearch.Proofs.Branch.Sighting
import ProgramSearch.Proofs.Program.Passage
import ProgramSearch.Proofs.Program.Modes
import ProgramSearch.Proofs.Program.Checking
import ProgramSearch.Proofs.Program.Observation
import ProgramSearch.Proofs.Memory.Likeness
import ProgramSearch.Proofs.Program.Commitment
import ProgramSearch.Proofs.Program.Evolution
import ProgramSearch.Proofs.Training.Climb
import ProgramSearch.Proofs.Training.Control
import ProgramSearch.Proofs.Training.Scalar
import ProgramSearch.Proofs.Tree.Commitment
import ProgramSearch.Proofs.Tree.Concealment
import ProgramSearch.Proofs.Program.Editing
import ProgramSearch.Proofs.Tree.Resumption
import ProgramSearch.Proofs.Training.Resumption
import ProgramSearch.Proofs.Memory.Cells
import ProgramSearch.Proofs.Tree.Reference
import ProgramSearch.Proofs.Tree.Adequacy
import ProgramSearch.Proofs.Tree.Execution
import ProgramSearch.Proofs.Tree.Budget
import ProgramSearch.Proofs.Tree.Barrier
import ProgramSearch.Proofs.Tree.Stripping
import ProgramSearch.Proofs.Branch.Agreement
import ProgramSearch.Proofs.Random.Agreement
import ProgramSearch.Proofs.Training.Agreement
import ProgramSearch.Proofs.Program.Regular
import ProgramSearch.Proofs.Training.ScalarThreshold
import ProgramSearch.Proofs.Tree.Thresholds
import ProgramSearch.Proofs.Training.ControlThreshold
import ProgramSearch.Proofs.Training.Threshold
import ProgramSearch.Proofs.Training.Invocation
import ProgramSearch.Proofs.Training.Elite
import ProgramSearch.Proofs.Worker.Protocol
import ProgramSearch.Proofs.Memory.Sharing
import ProgramSearch.Proofs.Memory.Address
import ProgramSearch.Proofs.Memory.Journal
import ProgramSearch.Proofs.Tree.Alone
import ProgramSearch.Proofs.Training.Sharing
import ProgramSearch.Proofs.Decimal.Numeral
import ProgramSearch.Proofs.Json.Number
import ProgramSearch.Proofs.Json.Quotation
import ProgramSearch.Proofs.Json.Style
import ProgramSearch.Proofs.Json.Reading
import ProgramSearch.Proofs.Document.Record
import ProgramSearch.Proofs.Document.Program
import ProgramSearch.Proofs.Document.Tree
import ProgramSearch.Proofs.Decimal.Shortest
import ProgramSearch.Proofs.Decimal.Layout
import ProgramSearch.Proofs.Number.Arithmetic
import ProgramSearch.Proofs.Number.Addition
import ProgramSearch.Proofs.Training.Score
import ProgramSearch.Proofs.Decimal.Scaling
import ProgramSearch.Proofs.Document.Constant
import ProgramSearch.Proofs.Program.Inlining
import ProgramSearch.Proofs.Program.Narration
import ProgramSearch.Proofs.Program.Instrumentation
import ProgramSearch.Proofs.Program.Cascade
import ProgramSearch.Proofs.Program.Position
import ProgramSearch.Proofs.Program.Repair
import ProgramSearch.Proofs.Training.Passes
import ProgramSearch.Proofs.Number.Overflow
import ProgramSearch.Proofs.Training.Solved
import ProgramSearch.Proofs.Program.Prediction
import ProgramSearch.Proofs.Tree.Places
import ProgramSearch.Proofs.Tree.Handover
import ProgramSearch.Proofs.Training.Refinement
