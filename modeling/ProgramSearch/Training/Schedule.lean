import ProgramSearch.Fault
import ProgramSearch.Random.Cipher

/-!
# Training schedules

A schedule says how many rounds are trained, how many trials score a candidate, how
many workers propose candidates, and which random streams they use. Every worker of
every round has a stream of its own, so what it draws does not depend on the others.

With a seed the streams are fixed. Without one they come from the system and can be
anything, so they are left open here.

Sizes are machine words. What is computed from them wraps around at 2^64.
-/

namespace ProgramSearch

/-- The streams of trainings without a seed: one for every round and user. -/
abbrev Entropy := Nat → Nat → Stream

/-- Streams for trainings with a seed, which never ask for them. -/
def Entropy.unused : Entropy := fun _ _ => Stream.cyclic #[0]

structure TrainingSchedule where
  iterations : Nat := 1000
  profilingRuns : Nat := 16
  heavyRuns : Nat := 16
  /-- How many trial scores are dropped from each end. -/
  removeOutliers : UInt64 := 2
  threads : Nat := 4
  /-- A side that was selected at most this often is guarded. With zero, nothing is. -/
  speculationThreshold : Nat := 0
  seed : Option UInt64 := none
deriving DecidableEq, Repr

namespace TrainingSchedule

def totalRuns (schedule : TrainingSchedule) : UInt64 :=
  UInt64.ofNat schedule.profilingRuns + UInt64.ofNat schedule.heavyRuns

def validate (schedule : TrainingSchedule) : Except Fault Unit :=
  if schedule.threads = 0 then .error (.misfit .noWorkers)
  else if schedule.totalRuns = 0 then .error (.misfit .noTrials)
  else if schedule.totalRuns ≤ 2 * schedule.removeOutliers then
    .error (.misfit (.nothingKept schedule.removeOutliers.toNat schedule.totalRuns.toNat))
  else .ok ()

/-- The stream that a seed has for a round and one of its users. -/
def seededStream (seed : UInt64) (round user : Nat) : Stream :=
  Random.seeded (seed + UInt64.ofNat round * 0x9E3779B97F4A7C15 +
    UInt64.ofNat user * 0xBF58476D1CE4E5B9)

/-- The stream of a round for one of its users: that of the seed, or else one from the system. -/
def streamFor (schedule : TrainingSchedule) (entropy : Entropy) (round user : Nat) : Stream :=
  match schedule.seed with
  | some seed => seededStream seed round user
  | none => entropy round user

/-- The user of the stream that scores the starting program. -/
def startUser : Nat := 2 ^ 64 - 1

end TrainingSchedule

end ProgramSearch
