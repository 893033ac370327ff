import ProgramSearch.Document.Program
import ProgramSearch.Tree

/-!
# Stored control trees

A control tree is stored as nested records. A basic block holds the one-line form of
its program as a string; specialized forms are not stored. The records of a tree are
read as a whole first, and then the programs of its basic blocks from left to right.
-/

namespace ProgramSearch.Document

/-- A tree whose basic blocks are still text. -/
inductive Outline where
  | skip
  | block (children : List Outline)
  | loop (condition : UInt16) (body : Outline)
  | read (target : UInt16)
  | write (address value : UInt16)
  | basic (text : String)

mutual

def ofTree : Tree Float → Json
  | .skip => record "NoOp" []
  | .block children => record "Block" [("children", .array (ofTrees children))]
  | .loop condition body =>
    record "WhileLoop" [("condition", short condition), ("body", ofTree body)]
  | .read target => record "MemoryRead" [("target", short target)]
  | .write address value =>
    record "MemoryWrite" [("address", short address), ("value", short value)]
  | .basic code => record "BasicBlock" [("nodes", .text (writeProgram code.nodes))]

def ofTrees : List (Tree Float) → List Json
  | [] => []
  | tree :: rest => ofTree tree :: ofTrees rest

end

mutual

/-- The outline that a document stores. The fuel bounds the levels that are opened. -/
def outline? : Nat → Json → Option Outline
  | 0, _ => none
  | fuel + 1, document => do
    let (kind, fields) ← kind? document
    match kind with
    | "NoOp" =>
      match fields with
      | .named _ | .listed [] => pure .skip
      | .listed _ => none
    | "Block" => do
      let [.array children] ← fields.values? ["children"] | none
      pure (.block (← outlines? fuel children))
    | "WhileLoop" => do
      let [condition, body] ← fields.values? ["condition", "body"] | none
      pure (.loop (← short? condition) (← outline? fuel body))
    | "MemoryRead" => do
      let [target] ← fields.values? ["target"] | none
      pure (.read (← short? target))
    | "MemoryWrite" => do
      let [address, value] ← fields.values? ["address", "value"] | none
      pure (.write (← short? address) (← short? value))
    | "BasicBlock" => do
      let [.string (some text)] ← fields.values? ["nodes"] | none
      pure (.basic text)
    | _ => none

def outlines? : Nat → List Json → Option (List Outline)
  | _, [] => some []
  | 0, _ :: _ => none
  | fuel + 1, document :: rest => do
    let first ← outline? fuel document
    let rest ← outlines? fuel rest
    pure (first :: rest)

end

mutual

/-- Read the programs of the basic blocks. -/
def Outline.tree : Outline → Except Fault (Tree Float)
  | .skip => .ok .skip
  | .block children => do pure (.block (← Outline.trees children))
  | .loop condition body => do pure (.loop condition (← body.tree))
  | .read target => .ok (.read target)
  | .write address value => .ok (.write address value)
  | .basic text => do
    let nodes ← readProgram text
    pure (.basic { nodes })

def Outline.trees : List Outline → Except Fault (List (Tree Float))
  | [] => .ok []
  | outline :: rest => do
    let tree ← outline.tree
    let rest ← Outline.trees rest
    pure (tree :: rest)

end

/-- The stored form of a tree, on indented lines. -/
def writeTree (tree : Tree Float) : String := (ofTree tree).pretty

/-- Read a stored tree. -/
def readTree (text : String) : Except Fault (Tree Float) :=
  match (Json.ofText? text).bind (outline? text.length) with
  | none => .error .serialization
  | some outline => outline.tree

end ProgramSearch.Document
