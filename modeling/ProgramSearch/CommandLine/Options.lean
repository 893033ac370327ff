import ProgramSearch.Number.Binary

/-!
# Command line options

A command line is a number of options followed by what to search for. An option with a
value takes it from the same word or from the next one; a next word that starts with a
dash is no value, unless it is a single dash. Short options without a value may be joined
with what follows. Every option may be given once. A command line that does not fit is
refused as a whole.
-/

namespace ProgramSearch.CommandLine

/-- What to search for. -/
inductive Search where
  /-- A straight-line program that adds its two arguments. -/
  | scalar
  /-- A control tree that adds up the numbers from one to its argument. -/
  | control
deriving DecidableEq, Repr

/-- The options that were given. -/
structure Options where
  debug : Bool := false
  seed : Option Nat := none
  threads : Option Nat := none
  iterations : Option Nat := none
  speculate : Option Nat := none
  save : Option String := none
deriving DecidableEq, Repr

/-- The options that take a value. -/
inductive Key where
  | seed
  | threads
  | iterations
  | speculate
  | save
deriving DecidableEq, Repr

namespace Key

def ofShort? : Char → Option Key
  | 's' => some seed
  | 't' => some threads
  | 'n' => some iterations
  | _ => none

def ofLong? (name : List Char) : Option Key :=
  match String.ofList name with
  | "seed" => some seed
  | "threads" => some threads
  | "iterations" => some iterations
  | "speculate" => some speculate
  | "save" => some save
  | _ => none

end Key

/-- The number that decimal digits with an optional plus sign spell, if it fits into
sixty-four bits. -/
def number? (text : List Char) : Option Nat :=
  let digits :=
    match text with
    | '+' :: rest => rest
    | _ => text
  if digits.isEmpty || !digits.all Char.isDigit then none
  else
    let value := digits.foldl (fun total digit => 10 * total + (digit.toNat - '0'.toNat)) 0
    if value < 2 ^ 64 then some value else none

namespace Options

/-- Set a number that was not set before. -/
def once (current : Option Nat) (text : List Char) : Option (Option Nat) :=
  match current, number? text with
  | none, some value => some (some value)
  | _, _ => none

/-- Set an option that was not set before. -/
def assign (options : Options) (key : Key) (text : List Char) : Option Options :=
  match key with
  | .seed => (once options.seed text).map fun seed => { options with seed }
  | .threads => (once options.threads text).map fun threads => { options with threads }
  | .iterations => (once options.iterations text).map fun iterations => { options with iterations }
  | .speculate => (once options.speculate text).map fun speculate => { options with speculate }
  | .save =>
    if options.save.isSome || text.isEmpty then none
    else some { options with save := some (String.ofList text) }

def setDebug (options : Options) : Option Options :=
  if options.debug then none else some { options with debug := true }

end Options

/-- What a word of options leaves: the options, and an option that still needs its value. -/
abbrev Pending := Options × Option Key

/-- The short options of one word, after its dash. The value of an option may follow in the
same word, with or without an equals sign. -/
def readShort (options : Options) : List Char → Option Pending
  | [] => some (options, none)
  | 'd' :: rest => options.setDebug.bind fun options => readShort options rest
  | name :: rest =>
    match Key.ofShort? name with
    | none => none
    | some key =>
      match rest with
      | [] => some (options, some key)
      | '=' :: value => (options.assign key value).map (·, none)
      | value => (options.assign key value).map (·, none)

/-- A long option, after its dashes. -/
def readLong (options : Options) (text : List Char) : Option Pending :=
  let name := text.takeWhile (· != '=')
  match text.dropWhile (· != '=') with
  | [] =>
    if name = "debug".toList then options.setDebug.map (·, none)
    else (Key.ofLong? name).map fun key => (options, some key)
  | _ :: value => (Key.ofLong? name).bind fun key => (options.assign key value).map (·, none)

/-- Whether a word can be the value of the option before it. -/
def isValue : List Char → Bool
  | '-' :: _ :: _ => false
  | _ => true

/-- What follows the search: nothing, or a lone mark that ends the options. -/
def endsWell : List String → Bool
  | [] => true
  | ["--"] => true
  | _ => false

/-- Read words while there are any. -/
def readWords (options : Options) : List String → Option (Options × Search)
  | [] => none
  | word :: rest =>
    match word.toList with
    | '-' :: '-' :: name =>
      match name with
      | [] => none
      | _ => continueWith (readLong options name) rest
    | '-' :: name =>
      match name with
      | [] => none
      | _ => continueWith (readShort options name) rest
    | _ =>
      if !endsWell rest then none
      else if word = "scalar" then some (options, .scalar)
      else if word = "turing" then some (options, .control)
      else none
where
  /-- Take the value of an option from the next word if it is still needed. -/
  continueWith (pending : Option Pending) (rest : List String) : Option (Options × Search) :=
    match pending, rest with
    | some (options, none), rest => readWords options rest
    | some (options, some key), value :: rest =>
      if isValue value.toList then
        match options.assign key value.toList with
        | some options => readWords options rest
        | none => none
      else none
    | _, _ => none

/-- The options and the search of a command line, if it fits. -/
def read? (words : List String) : Option (Options × Search) := readWords {} words

end ProgramSearch.CommandLine
