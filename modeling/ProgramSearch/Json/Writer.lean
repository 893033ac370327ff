import ProgramSearch.Json

/-!
# Writing documents

Two forms are written: one on a single line without blanks, and one with a line
for every item, indented by two blanks for each level. An empty list stays on one
line in both.

In a string, the quotation mark, the backslash and the control characters are
escaped, five of the latter by a letter and the others by their number.
-/

namespace ProgramSearch.Json

/-- A digit of a number to the base sixteen. -/
def hexDigit (value : Nat) : Char :=
  if value < 10 then Char.ofNat ('0'.toNat + value) else Char.ofNat ('a'.toNat + (value - 10))

/-- How one character is spelled inside a string. -/
def escape (c : Char) : List Char :=
  if c = '"' then ['\\', '"']
  else if c = '\\' then ['\\', '\\']
  else if c = '\n' then ['\\', 'n']
  else if c = '\r' then ['\\', 'r']
  else if c = '\t' then ['\\', 't']
  else if c.toNat = 8 then ['\\', 'b']
  else if c.toNat = 12 then ['\\', 'f']
  else if c.toNat < 32 then ['\\', 'u', '0', '0', hexDigit (c.toNat / 16), hexDigit (c.toNat % 16)]
  else [c]

/-- A string between quotation marks. A string without a text counts as an empty one. -/
def quote (text : Option String) : List Char :=
  '"' :: (text.getD "").toList.flatMap escape ++ ['"']

/-- A document without parts, which is spelled alike in both forms. -/
def spellAtom : Json → List Char
  | .bool true => ['t', 'r', 'u', 'e']
  | .bool false => ['f', 'a', 'l', 's', 'e']
  | .number spelling => spelling.toList
  | .string text => quote text
  | .null | .array _ | .object _ => ['n', 'u', 'l', 'l']

mutual

/-- The form on one line. -/
def spellCompact : Json → List Char
  | .array items => '[' :: spellCompactItems items ++ [']']
  | .object members => '\x7b' :: spellCompactMembers members ++ ['\x7d']
  | atom => spellAtom atom

def spellCompactItems : List Json → List Char
  | [] => []
  | [item] => spellCompact item
  | item :: rest => spellCompact item ++ ',' :: spellCompactItems rest

def spellCompactMembers : List (Option String × Json) → List Char
  | [] => []
  | [(key, value)] => quote key ++ ':' :: spellCompact value
  | (key, value) :: rest =>
    quote key ++ ':' :: spellCompact value ++ ',' :: spellCompactMembers rest

end

/-- A new line at a level. -/
def newLine (level : Nat) : List Char := '\n' :: List.replicate (2 * level) ' '

mutual

/-- The indented form at a level. -/
def spellIndented (level : Nat) : Json → List Char
  | .array [] => ['[', ']']
  | .array items => '[' :: spellIndentedItems (level + 1) items ++ newLine level ++ [']']
  | .object [] => ['\x7b', '\x7d']
  | .object members =>
    '\x7b' :: spellIndentedMembers (level + 1) members ++ newLine level ++ ['\x7d']
  | atom => spellAtom atom

def spellIndentedItems (level : Nat) : List Json → List Char
  | [] => []
  | [item] => newLine level ++ spellIndented level item
  | item :: rest =>
    newLine level ++ spellIndented level item ++ ',' :: spellIndentedItems level rest

def spellIndentedMembers (level : Nat) : List (Option String × Json) → List Char
  | [] => []
  | [(key, value)] => newLine level ++ quote key ++ ':' :: ' ' :: spellIndented level value
  | (key, value) :: rest =>
    newLine level ++ quote key ++ ':' :: ' ' :: spellIndented level value ++
      ',' :: spellIndentedMembers level rest

end

/-- A document on one line. -/
def compact (document : Json) : String := String.ofList document.spellCompact

/-- A document on indented lines, without a final new line. -/
def pretty (document : Json) : String := String.ofList (document.spellIndented 0)

end ProgramSearch.Json
