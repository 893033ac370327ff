import ProgramSearch.CommandLine.Report

/-!
# The command

Reads the command line, runs the search and writes what it reports. Without a seed the
random streams come from the system. A command line that does not fit ends with status two;
a search that fails still ends with status zero.
-/

namespace ProgramSearch.CommandLine

/-- Streams from the system: those of a seed that it draws. -/
def freshStreams : IO Entropy := do
  let bytes ← IO.getRandomBytes 8
  let seed := bytes.foldl (fun total byte => 256 * total + byte.toNat) 0
  return TrainingSchedule.seededStream (UInt64.ofNat seed)

/-- Try to store a document, and tell whether that worked. -/
def store (path document : String) : IO Bool := do
  try
    IO.FS.writeFile path document
    return true
  catch _ => return false

/-- Store the document of a search, if it has one and shall be stored. -/
def storeResult (report : Report) (save : Option String) : IO Bool :=
  match report.result, save with
  | .ok document, some path => store path document
  | _, _ => return false

/-- Run the search that was asked for and write its output. -/
def search (options : Options) (task : Search) : IO Unit := do
  let report := run options task (← freshStreams)
  let written ← storeResult report options.save
  let output := report.output options.save fun _ => written
  output.lines.forM IO.println
  output.errors.forM IO.eprintln

/-- Carry out a command line and give the exit status. -/
def execute (words : List String) : IO UInt32 := do
  match read? words with
  | none =>
    IO.eprintln "usage: [OPTIONS] <scalar|turing>"
    return 2
  | some (options, task) =>
    search options task
    return 0

end ProgramSearch.CommandLine

def main (words : List String) : IO UInt32 := ProgramSearch.CommandLine.execute words
