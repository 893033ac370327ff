import ProgramSearch.Decimal.Numeral

/-!
# Documents

Stored programs are documents of nulls, truth values, numbers, strings, lists and
records. A number is kept as it is spelled. A string may spell half of a surrogate
pair, and then it has no text; such a string is harmless in a part that nobody
reads. A record keeps its members in order, also repeated ones.
-/

namespace ProgramSearch

inductive Json where
  | null
  | bool (value : Bool)
  | number (spelling : String)
  | string (text : Option String)
  | array (items : List Json)
  | object (members : List (Option String × Json))

namespace Json

def text (content : String) : Json := .string (some content)

def natural (value : Nat) : Json := .number (String.ofList (Decimal.natural value))

/-- The double that a number denotes. -/
def toFloat? : Json → Option Float
  | .number spelling => (Decimal.Numeral.ofText? spelling).bind Decimal.Numeral.toFloat?
  | _ => none

/-- The natural number below a bound that a number spells without sign, fraction
and exponent. -/
def toNatural? (bound : Nat) : Json → Option Nat
  | .number spelling =>
    ((Decimal.Numeral.ofText? spelling).bind Decimal.Numeral.natural?).filter (· < bound)
  | _ => none

mutual

/-- Whether every number denotes a finite double and every string has a text. -/
def isReadable : Json → Bool
  | .null | .bool _ => true
  | document@(.number _) => document.toFloat?.isSome
  | .string text => text.isSome
  | .array items => areReadable items
  | .object members => areMembersReadable members

def areReadable : List Json → Bool
  | [] => true
  | item :: rest => item.isReadable && areReadable rest

def areMembersReadable : List (Option String × Json) → Bool
  | [] => true
  | (key, value) :: rest => key.isSome && value.isReadable && areMembersReadable rest

end

/-- The value of a key that must not be repeated. -/
def uniqueMember? (members : List (Option String × Json)) (key : String) : Option Json :=
  match members.filter (·.1 == some key) with
  | [(_, value)] => some value
  | _ => none

end Json

end ProgramSearch
