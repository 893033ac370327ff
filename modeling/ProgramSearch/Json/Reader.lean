import ProgramSearch.Json

/-!
# Reading documents

The grammar is the strict one: no comments, no trailing commas, no blanks other
than space, tab, line feed and carriage return, nothing but blanks after the
document. Lists and records nest at most 127 deep.

Every refusal is the same, so the reader answers with a document or with nothing.
It consumes a character before each recursive step, so the length of the text
bounds the recursion.
-/

namespace ProgramSearch.Json

def isBlank (c : Char) : Bool := c == ' ' || c == '\t' || c == '\n' || c == '\r'

def skipBlanks (text : List Char) : List Char := text.dropWhile isBlank

def hexValue? (c : Char) : Option Nat :=
  if '0' ≤ c ∧ c ≤ '9' then some (c.toNat - '0'.toNat)
  else if 'a' ≤ c ∧ c ≤ 'f' then some (c.toNat - 'a'.toNat + 10)
  else if 'A' ≤ c ∧ c ≤ 'F' then some (c.toNat - 'A'.toNat + 10)
  else none

/-- A piece of a string: a character, or a unit of sixteen bits given by number. -/
inductive Piece where
  | char (c : Char)
  | unit (code : Nat)

/-- The unit that four digits to the base sixteen number. -/
def unit? (a b c d : Char) : Option Piece := do
  let a ← hexValue? a
  let b ← hexValue? b
  let c ← hexValue? c
  let d ← hexValue? d
  pure (.unit (((a * 16 + b) * 16 + c) * 16 + d))

/-- The character that an escape by one letter stands for. -/
def escaped? (c : Char) : Option Piece :=
  match c with
  | '"' => some (.char '"')
  | '\\' => some (.char '\\')
  | '/' => some (.char '/')
  | 'b' => some (.char (Char.ofNat 8))
  | 'f' => some (.char (Char.ofNat 12))
  | 'n' => some (.char '\n')
  | 'r' => some (.char '\r')
  | 't' => some (.char '\t')
  | _ => none

/-- Put a piece, if there is one, before the pieces that were found after it. -/
def join (piece : Option Piece) (found : Option (List Piece × List Char)) :
    Option (List Piece × List Char) :=
  piece.bind fun piece => found.map fun (pieces, rest) => (piece :: pieces, rest)

/-- The rest of a string after its opening quotation mark, and what follows it. -/
def scanPieces : List Char → Option (List Piece × List Char)
  | [] => none
  | '"' :: rest => some ([], rest)
  | '\\' :: 'u' :: a :: b :: c :: d :: rest => join (unit? a b c d) (scanPieces rest)
  | '\\' :: c :: rest => join (escaped? c) (scanPieces rest)
  | c :: rest => if c.toNat < 32 then none else join (some (.char c)) (scanPieces rest)

/-- Units for the first half of a surrogate pair. -/
def isHighHalf (code : Nat) : Bool := 0xD800 ≤ code && code < 0xDC00

/-- Units for the second half of a surrogate pair. -/
def isLowHalf (code : Nat) : Bool := 0xDC00 ≤ code && code < 0xE000

/-- The text of the pieces, if every surrogate is one of a pair. -/
def decode : List Piece → Option (List Char)
  | [] => some []
  | .char c :: rest => (decode rest).map (c :: ·)
  | .unit high :: .unit low :: rest =>
    if isHighHalf high then
      if isLowHalf low then
        (decode rest).map (Char.ofNat (0x10000 + (high - 0xD800) * 0x400 + (low - 0xDC00)) :: ·)
      else none
    else if isLowHalf high then none
    else (decode (.unit low :: rest)).map (Char.ofNat high :: ·)
  | .unit code :: rest =>
    if isHighHalf code || isLowHalf code then none else (decode rest).map (Char.ofNat code :: ·)

/-- A string after its opening quotation mark. -/
def scanString (text : List Char) : Option (Option String × List Char) := do
  let (pieces, rest) ← scanPieces text
  pure ((decode pieces).map String.ofList, rest)

/-- The given characters at the start of a text. -/
def expect (word : List Char) (text : List Char) : Option (List Char) :=
  if word.isPrefixOf text then some (text.drop word.length) else none

/-- The characters that numerals consist of. -/
def isNumeralPart (c : Char) : Bool :=
  c.isDigit || c == '-' || c == '+' || c == '.' || c == 'e' || c == 'E'

/-- A number at the start of a text, kept as it is spelled. It takes every character that
numerals consist of, because nothing that may follow a number starts with one. -/
def scanNumber (text : List Char) : Option (Json × List Char) :=
  let spelling := text.takeWhile isNumeralPart
  match Decimal.Numeral.scan spelling with
  | some (_, []) => some (.number (String.ofList spelling), text.dropWhile isNumeralPart)
  | _ => none

mutual

/-- A document at the start of a text. The depth is the number of levels that may
still be opened. -/
def scanValue (depth : Nat) : Nat → List Char → Option (Json × List Char)
  | 0, _ => none
  | fuel + 1, text =>
    match skipBlanks text with
    | 'n' :: rest => (expect ['u', 'l', 'l'] rest).map (.null, ·)
    | 't' :: rest => (expect ['r', 'u', 'e'] rest).map (.bool true, ·)
    | 'f' :: rest => (expect ['a', 'l', 's', 'e'] rest).map (.bool false, ·)
    | '"' :: rest => (scanString rest).map fun (text, rest) => (.string text, rest)
    | '[' :: rest =>
      match depth with
      | 0 => none
      | depth + 1 =>
        match skipBlanks rest with
        | ']' :: rest => some (.array [], rest)
        | rest => (scanItems depth fuel rest).map fun (items, rest) => (.array items, rest)
    | '\x7b' :: rest =>
      match depth with
      | 0 => none
      | depth + 1 =>
        match skipBlanks rest with
        | '\x7d' :: rest => some (.object [], rest)
        | rest => (scanMembers depth fuel rest).map fun (members, rest) => (.object members, rest)
    | text => scanNumber text

/-- The items of a list, with its closing bracket. -/
def scanItems (depth : Nat) : Nat → List Char → Option (List Json × List Char)
  | 0, _ => none
  | fuel + 1, text => do
    let (item, rest) ← scanValue depth fuel text
    match skipBlanks rest with
    | ']' :: rest => pure ([item], rest)
    | ',' :: rest =>
      let (items, rest) ← scanItems depth fuel rest
      pure (item :: items, rest)
    | _ => none

/-- The members of a record, with its closing brace. -/
def scanMembers (depth : Nat) : Nat → List Char → Option (List (Option String × Json) × List Char)
  | 0, _ => none
  | fuel + 1, text => do
    let text ← expect ['"'] (skipBlanks text)
    let (key, text) ← scanString text
    let text ← expect [':'] (skipBlanks text)
    let (value, rest) ← scanValue depth fuel text
    match skipBlanks rest with
    | '\x7d' :: rest => pure ([(key, value)], rest)
    | ',' :: rest =>
      let (members, rest) ← scanMembers depth fuel rest
      pure ((key, value) :: members, rest)
    | _ => none

end

/-- How deep lists and records may nest. -/
def depthLimit : Nat := 127

/-- The document that a whole text spells. -/
def ofText? (text : String) : Option Json :=
  let characters := text.toList
  match scanValue depthLimit (2 * characters.length + 1) characters with
  | some (document, rest) => if (skipBlanks rest).isEmpty then some document else none
  | none => none

end ProgramSearch.Json
