import ProgramSearch.Document.Program
import ProgramSearch.Tree.Mutation

/-!
# Stored odds

Mutation odds are stored as a record of nine numbers in a fixed order, or as a list of
them. Weights have thirty-two bits. Members that are ignored may hold anything.
-/

namespace ProgramSearch.Document

/-- The names of the odds in their declared order. -/
def oddsFields : List String :=
  ["descend", "insert", "remove", "loop_flip", "write_address",
    "leaf_read", "leaf_write", "leaf_block", "leaf_loop"]

def ofOdds (odds : MutationOdds) : Json :=
  let weight (value : UInt32) : Json := .natural value.toNat
  let values := [weight odds.descend, weight odds.insert, weight odds.remove,
    constant odds.loopFlip, constant odds.writeAddress,
    weight odds.leafRead, weight odds.leafWrite, weight odds.leafBlock, weight odds.leafLoop]
  .object ((oddsFields.zip values).map fun (key, value) => (some key, value))

def weight? (document : Json) : Option UInt32 :=
  (document.toNatural? (2 ^ 32)).map UInt32.ofNat

def oddsValues? : Json → Option (List Json)
  | .object members =>
    if members.all (·.1.isSome) then (Fields.named members).values? oddsFields else none
  | .array items => (Fields.listed items).values? oddsFields
  | _ => none

def odds? (document : Json) : Option MutationOdds := do
  let [descend, insert, remove, loopFlip, writeAddress, leafRead, leafWrite, leafBlock,
    leafLoop] ← oddsValues? document | none
  pure {
    descend := ← weight? descend
    insert := ← weight? insert
    remove := ← weight? remove
    loopFlip := ← loopFlip.toFloat?
    writeAddress := ← writeAddress.toFloat?
    leafRead := ← weight? leafRead
    leafWrite := ← weight? leafWrite
    leafBlock := ← weight? leafBlock
    leafLoop := ← weight? leafLoop }

/-- The stored form of odds, on one line. -/
def writeOdds (odds : MutationOdds) : String := (ofOdds odds).compact

/-- Read stored odds and check them. -/
def readOdds (text : String) : Except Fault MutationOdds :=
  match (Json.ofText? text).bind odds? with
  | none => .error .serialization
  | some odds => odds.validate.map fun _ => odds

end ProgramSearch.Document
