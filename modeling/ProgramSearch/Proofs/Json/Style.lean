import ProgramSearch.Json.Reader
import ProgramSearch.Json.Writer

/-!
# Styles of writing

The two forms of a document differ in blanks only. A style says which blanks stand before each part of
a list or a record and between a key and its value. Writing in a given style has both forms as its
cases, so that the reader is examined once.
-/

namespace ProgramSearch.Json

/-- The blanks that set the parts of a document apart. -/
structure Style where
  /-- What stands before each part of a list or a record, and at the level above before its end. -/
  gap : Nat → List Char
  /-- What stands before the value of a key. -/
  valueGap : List Char
  gap_blank : ∀ level, ∀ c ∈ gap level, isBlank c = true
  valueGap_blank : ∀ c ∈ valueGap, isBlank c = true

/-- One line without blanks. -/
def Style.compact : Style where
  gap _ := []
  valueGap := []
  gap_blank := nofun
  valueGap_blank := nofun

/-- A line for every part, indented by its level. -/
def Style.indented : Style where
  gap := newLine
  valueGap := [' ']
  gap_blank level c member := by
    rcases List.mem_cons.mp member with rfl | space
    · rfl
    · rw [List.eq_of_mem_replicate space]
      rfl
  valueGap_blank c member := by
    rw [List.mem_singleton.mp member]
    rfl

variable (style : Style)

mutual

/-- A document in a style at a level. -/
def spell (level : Nat) : Json → List Char
  | .array [] => ['[', ']']
  | .array items => '[' :: spellItems (level + 1) items ++ (style.gap level ++ [']'])
  | .object [] => ['\x7b', '\x7d']
  | .object members =>
    '\x7b' :: spellMembers (level + 1) members ++ (style.gap level ++ ['\x7d'])
  | atom => spellAtom atom

/-- The items of a list in a style, at the level of the items. -/
def spellItems (level : Nat) : List Json → List Char
  | [] => []
  | [item] => style.gap level ++ spell level item
  | item :: rest => style.gap level ++ spell level item ++ ',' :: spellItems level rest

/-- The members of a record in a style, at the level of the members. -/
def spellMembers (level : Nat) : List (Option String × Json) → List Char
  | [] => []
  | [(key, value)] =>
    style.gap level ++ quote key ++ ':' :: style.valueGap ++ spell level value
  | (key, value) :: rest =>
    style.gap level ++ quote key ++ ':' :: style.valueGap ++ spell level value ++
      ',' :: spellMembers level rest

end

/-- A list that is not empty is spelled by its items. -/
theorem spell_array (level : Nat) (item : Json) (rest : List Json) :
    spell style level (.array (item :: rest)) =
      '[' :: (spellItems style (level + 1) (item :: rest) ++ (style.gap level ++ [']'])) := by
  rw [spell]
  · rfl
  · exact nofun

/-- An item that is not the last one is followed by a comma. -/
theorem spell_items_next (level : Nat) (item next : Json) (rest : List Json) :
    spellItems style level (item :: next :: rest) =
      style.gap level ++ (spell style level item ++ ',' :: spellItems style level (next :: rest)) := by
  rw [spellItems, List.append_assoc]
  exact nofun

/-- A record that is not empty is spelled by its members. -/
theorem spell_object (level : Nat) (member : Option String × Json)
    (rest : List (Option String × Json)) :
    spell style level (.object (member :: rest)) =
      '\x7b' :: (spellMembers style (level + 1) (member :: rest) ++ (style.gap level ++ ['\x7d'])) := by
  rw [spell]
  · rfl
  · exact nofun

/-- The last member is a key and its value. -/
theorem spell_members_last (level : Nat) (key : Option String) (value : Json) :
    spellMembers style level [(key, value)] =
      style.gap level ++ (quote key ++ ':' :: (style.valueGap ++ spell style level value)) := by
  simp [spellMembers]

/-- A member that is not the last one is followed by a comma. -/
theorem spell_members_next (level : Nat) (key : Option String) (value : Json)
    (next : Option String × Json) (rest : List (Option String × Json)) :
    spellMembers style level ((key, value) :: next :: rest) =
      style.gap level ++ (quote key ++ ':' :: (style.valueGap ++
        (spell style level value ++ ',' :: spellMembers style level (next :: rest)))) := by
  simp [spellMembers]

mutual

/-- The form on one line is a style. -/
theorem spell_compact_eq (level : Nat) (document : Json) :
    document.spellCompact = spell .compact level document := by
  match document with
  | .null | .bool _ | .number _ | .string _ => rfl
  | .array [] | .object [] => rfl
  | .array (item :: rest) =>
    rw [spellCompact, spell, spell_compact_items_eq (level + 1) (item :: rest)]
    · rfl
    · exact nofun
  | .object (member :: rest) =>
    rw [spellCompact, spell, spell_compact_members_eq (level + 1) (member :: rest)]
    · rfl
    · exact nofun

theorem spell_compact_items_eq (level : Nat) (items : List Json) :
    spellCompactItems items = spellItems .compact level items := by
  match items with
  | [] => rfl
  | [item] =>
    rw [spellCompactItems, spellItems, spell_compact_eq level item]
    rfl
  | item :: next :: rest =>
    rw [spellCompactItems, spellItems, spell_compact_eq level item,
      spell_compact_items_eq level (next :: rest)]
    · rfl
    · exact nofun
    · exact nofun

theorem spell_compact_members_eq (level : Nat) (members : List (Option String × Json)) :
    spellCompactMembers members = spellMembers .compact level members := by
  match members with
  | [] => rfl
  | [(key, value)] =>
    rw [spellCompactMembers, spellMembers, spell_compact_eq level value]
    simp [Style.compact]
  | (key, value) :: next :: rest =>
    rw [spellCompactMembers, spellMembers, spell_compact_eq level value,
      spell_compact_members_eq level (next :: rest)]
    · simp [Style.compact]
    · exact nofun
    · exact nofun

end

mutual

/-- The indented form is a style. -/
theorem spell_indented_eq (level : Nat) (document : Json) :
    document.spellIndented level = spell .indented level document := by
  match document with
  | .null | .bool _ | .number _ | .string _ => rfl
  | .array [] | .object [] => rfl
  | .array (item :: rest) =>
    rw [spellIndented, spell, spell_indented_items_eq (level + 1) (item :: rest)]
    · simp [Style.indented]
    · exact nofun
    · exact nofun
  | .object (member :: rest) =>
    rw [spellIndented, spell, spell_indented_members_eq (level + 1) (member :: rest)]
    · simp [Style.indented]
    · exact nofun
    · exact nofun

theorem spell_indented_items_eq (level : Nat) (items : List Json) :
    spellIndentedItems level items = spellItems .indented level items := by
  match items with
  | [] => rfl
  | [item] =>
    rw [spellIndentedItems, spellItems, spell_indented_eq level item]
    rfl
  | item :: next :: rest =>
    rw [spellIndentedItems, spellItems, spell_indented_eq level item,
      spell_indented_items_eq level (next :: rest)]
    · rfl
    · exact nofun
    · exact nofun

theorem spell_indented_members_eq (level : Nat) (members : List (Option String × Json)) :
    spellIndentedMembers level members = spellMembers .indented level members := by
  match members with
  | [] => rfl
  | [(key, value)] =>
    rw [spellIndentedMembers, spellMembers, spell_indented_eq level value]
    simp [Style.indented]
  | (key, value) :: next :: rest =>
    rw [spellIndentedMembers, spellMembers, spell_indented_eq level value,
      spell_indented_members_eq level (next :: rest)]
    · simp [Style.indented]
    · exact nofun
    · exact nofun

end

end ProgramSearch.Json
