import ProgramSearch.Json

/-!
# Stored records

A stored node is a record that names its kind. The fields of the kind may stand in
any order, each exactly once; other members are ignored. The same data may also be
stored as a list: the kind and then the fields in their declared order.
-/

namespace ProgramSearch.Document

/-- A record before its fields are looked at. -/
inductive Fields where
  | named (members : List (Option String × Json))
  | listed (items : List Json)

/-- The kind of a record and what else it holds. Everything in a record must be
readable, also the members that are ignored. -/
def kind? (document : Json) : Option (String × Fields) :=
  if document.isReadable then
    match document with
    | .object members =>
      match Json.uniqueMember? members "kind" with
      | some (.string (some kind)) => some (kind, .named members)
      | _ => none
    | .array (.string (some kind) :: items) => some (kind, .listed items)
    | _ => none
  else none

/-- The values of the declared fields, in their order. -/
def Fields.values? (fields : Fields) (declared : List String) : Option (List Json) :=
  match fields with
  | .named members => declared.mapM (Json.uniqueMember? members)
  | .listed items => if items.length = declared.length then some items else none

/-- A slot, a parameter or a variable: a number of sixteen bits. -/
def short? (document : Json) : Option UInt16 := (document.toNatural? (2 ^ 16)).map UInt16.ofNat

def bool? : Json → Option Bool
  | .bool value => some value
  | _ => none

/-- A record of a kind with the given fields, the kind first. -/
def record (kind : String) (fields : List (String × Json)) : Json :=
  .object (("kind", .text kind) :: fields |>.map fun (key, value) => (some key, value))

def short (value : UInt16) : Json := .natural value.toNat

end ProgramSearch.Document
