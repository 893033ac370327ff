import ProgramSearch.Tree

/-!
# Control trees as text

One line for each statement, indented by two blanks for each level, and a line for
each brace of a block. The body of a loop is one level below it.
-/

namespace ProgramSearch

/-- How many slots hold a node. -/
def Program.presentCount {α : Type} (nodes : Program α) : Nat := nodes.toList.countP Option.isSome

namespace Tree

variable {α : Type}

def indent (level : Nat) (text : String) : String :=
  String.ofList (List.replicate (2 * level) ' ') ++ text

mutual

def lines (level : Nat) : Tree α → List String
  | .skip => [indent level "nop"]
  | .block children => indent level "\x7b" :: linesOf (level + 1) children ++ [indent level "\x7d"]
  | .loop condition body =>
    indent level s!"while v{condition} > 0" :: lines (level + 1) body
  | .read target => [indent level s!"v{target} = mem[v{target}]"]
  | .write address value => [indent level s!"mem[v{address}] = v{value}"]
  | .basic code =>
    let count := code.nodes.presentCount
    let mark := if code.specialized.isSome then ", specialized" else ""
    [indent level s!"bb({count} live node(s){mark})"]

def linesOf (level : Nat) : List (Tree α) → List String
  | [] => []
  | tree :: rest => lines level tree ++ linesOf level rest

end

/-- Every line, each with its end. -/
def display (tree : Tree α) : String := String.join ((tree.lines 0).map (· ++ "\n"))

end Tree

end ProgramSearch
