import ProgramSearch.Proofs.Json.Number
import ProgramSearch.Proofs.Json.Quotation
import ProgramSearch.Proofs.Json.Style

/-!
# Reading what was written

The reader inverts the writer in every style: a document whose numbers and strings can be read is read
back from its spelling, as long as it does not nest too deep, and is refused otherwise. The induction is
on the document. It carries along that what follows a value does not continue a number, and that the
length of the spelling bounds the recursion of the reader.
-/

namespace ProgramSearch.Json

mutual

/-- How deep the lists and records of a document nest. -/
def levels : Json → Nat
  | .array items => levelsOf items + 1
  | .object members => levelsOfMembers members + 1
  | .null | .bool _ | .number _ | .string _ => 0

/-- How deep the items of a list nest. -/
def levelsOf : List Json → Nat
  | [] => 0
  | item :: rest => max item.levels (levelsOf rest)

/-- How deep the members of a record nest. -/
def levelsOfMembers : List (Option String × Json) → Nat
  | [] => 0
  | (_, value) :: rest => max value.levels (levelsOfMembers rest)

end

theorem skip_blanks_append {blanks : List Char} (blank : ∀ c ∈ blanks, isBlank c = true)
    (text : List Char) : skipBlanks (blanks ++ text) = skipBlanks text :=
  List.dropWhile_append_of_pos blank

theorem skip_blanks_cons {c : Char} (visible : isBlank c = false) (text : List Char) :
    skipBlanks (c :: text) = c :: text :=
  List.dropWhile_cons_of_neg (by simp [visible])

section Blanks

variable {blanks : List Char} (blank : ∀ c ∈ blanks, isBlank c = true) (depth fuel : Nat)
  (text : List Char)

include blank

/-- The reader skips blanks in front of a value. -/
theorem blanks_before_value :
    scanValue depth fuel (blanks ++ text) = scanValue depth fuel text := by
  cases fuel with
  | zero => rfl
  | succ fuel => rw [scanValue, scanValue, skip_blanks_append blank]

/-- The reader skips blanks in front of the items of a list. -/
theorem blanks_before_items :
    scanItems depth fuel (blanks ++ text) = scanItems depth fuel text := by
  cases fuel with
  | zero => rfl
  | succ fuel => rw [scanItems, scanItems, blanks_before_value blank]

/-- The reader skips blanks in front of the members of a record. -/
theorem blanks_before_members :
    scanMembers depth fuel (blanks ++ text) = scanMembers depth fuel text := by
  cases fuel with
  | zero => rfl
  | succ fuel => rw [scanMembers, scanMembers, skip_blanks_append blank]

end Blanks

section Starts

variable {c : Char} (starts : c = '-' ∨ c.isDigit = true)

include starts

/-- What starts a number is told apart from any other character. -/
theorem other_of_starts {d : Char} (distinct : ¬(d = '-' ∨ d.isDigit = true)) : c ≠ d :=
  fun same => distinct (same ▸ starts)

/-- What starts a number is no blank. -/
theorem visible_of_starts : isBlank c = false := by
  simp [isBlank, other_of_starts starts (d := ' ') (by decide),
    other_of_starts starts (d := '\t') (by decide), other_of_starts starts (d := '\n') (by decide),
    other_of_starts starts (d := '\r') (by decide)]

/-- A text that starts with a sign or a digit is read as a number. -/
theorem scan_value_number (depth fuel : Nat) (text : List Char) :
    scanValue depth (fuel + 1) (c :: text) = scanNumber (c :: text) := by
  rw [scanValue, skip_blanks_cons (visible_of_starts starts)]
  split
  case h_7 => rfl
  case h_1 shape => exact absurd (List.cons.inj shape).1 (other_of_starts starts (by decide))
  case h_2 shape => exact absurd (List.cons.inj shape).1 (other_of_starts starts (by decide))
  case h_3 shape => exact absurd (List.cons.inj shape).1 (other_of_starts starts (by decide))
  case h_4 shape => exact absurd (List.cons.inj shape).1 (other_of_starts starts (by decide))
  case h_5 shape => exact absurd (List.cons.inj shape).1 (other_of_starts starts (by decide))
  case h_6 shape => exact absurd (List.cons.inj shape).1 (other_of_starts starts (by decide))

end Starts

/-- What follows an opening bracket is read as a list. -/
theorem scan_value_list (depth fuel : Nat) (text : List Char) :
    scanValue (depth + 1) (fuel + 1) ('[' :: text) =
      match skipBlanks text with
      | ']' :: rest => some (.array [], rest)
      | rest => (scanItems depth fuel rest).map fun (items, rest) => (.array items, rest) :=
  rfl

/-- A list that is not empty is read item by item, one level deeper. -/
theorem scan_value_items {blanks text : List Char} (blank : ∀ c ∈ blanks, isBlank c = true)
    {c : Char} (visible : isBlank c = false) (open_ : c ≠ ']') (depth fuel : Nat) :
    scanValue (depth + 1) (fuel + 1) ('[' :: (blanks ++ c :: text)) =
      (scanItems depth fuel (c :: text)).map fun (items, rest) => (.array items, rest) := by
  rw [scan_value_list, skip_blanks_append blank, skip_blanks_cons visible]
  split
  case h_1 closed => exact absurd (List.cons.inj closed).1 open_
  case h_2 => rfl

/-- What follows an opening brace is read as a record. -/
theorem scan_value_record (depth fuel : Nat) (text : List Char) :
    scanValue (depth + 1) (fuel + 1) ('\x7b' :: text) =
      match skipBlanks text with
      | '\x7d' :: rest => some (.object [], rest)
      | rest => (scanMembers depth fuel rest).map fun (members, rest) => (.object members, rest) :=
  rfl

/-- A record that is not empty is read member by member, one level deeper. -/
theorem scan_value_members {blanks text : List Char} (blank : ∀ c ∈ blanks, isBlank c = true)
    (depth fuel : Nat) :
    scanValue (depth + 1) (fuel + 1) ('\x7b' :: (blanks ++ '"' :: text)) =
      (scanMembers depth fuel ('"' :: text)).map fun (members, rest) => (.object members, rest) := by
  rw [scan_value_record, skip_blanks_append blank, skip_blanks_cons rfl]
  split
  case h_1 closed => exact absurd (List.cons.inj closed).1 (by decide)
  case h_2 => rfl

section Parts

variable {depth fuel : Nat} {text rest blanks : List Char}

/-- An item that is refused has its list refused. -/
theorem scan_items_refused (first : scanValue depth fuel text = none) :
    scanItems depth (fuel + 1) text = none := by
  rw [scanItems, first]
  rfl

/-- The item before the closing bracket is the last one. -/
theorem scan_items_last {item : Json} (blank : ∀ c ∈ blanks, isBlank c = true)
    (first : scanValue depth fuel text = some (item, blanks ++ ']' :: rest)) :
    scanItems depth (fuel + 1) text = some ([item], rest) := by
  rw [scanItems, first]
  simp [skip_blanks_append blank, skip_blanks_cons (c := ']') rfl]

/-- After a comma the list continues. -/
theorem scan_items_next {item : Json} (first : scanValue depth fuel text = some (item, ',' :: rest)) :
    scanItems depth (fuel + 1) text =
      (scanItems depth fuel rest).map fun (items, rest) => (item :: items, rest) := by
  rw [scanItems, first]
  change (scanItems depth fuel rest).bind _ = _
  cases scanItems depth fuel rest <;> rfl

/-- The key of a member is read, and then what follows depends on the value. -/
theorem scan_members_key (key : String) (blank : ∀ c ∈ blanks, isBlank c = true) :
    scanMembers depth (fuel + 1) (quote (some key) ++ ':' :: (blanks ++ text)) = (do
      let (value, rest) ← scanValue depth fuel text
      match skipBlanks rest with
      | '\x7d' :: rest => pure ([(some key, value)], rest)
      | ',' :: rest =>
        let (members, rest) ← scanMembers depth fuel rest
        pure ((some key, value) :: members, rest)
      | _ => none) := by
  obtain ⟨spelling, shape, scanned⟩ := quoted_scanned key (':' :: (blanks ++ text))
  have opening : expect ['"'] ('"' :: spelling) = some spelling := rfl
  have colon : expect [':'] (':' :: (blanks ++ text)) = some (blanks ++ text) := rfl
  rw [shape, scanMembers, skip_blanks_cons rfl, opening]
  simp only [Option.bind_eq_bind, Option.bind_some, scanned, skip_blanks_cons (c := ':') rfl, colon]
  exact congrArg (fun found => Option.bind found _) (blanks_before_value blank _ _ _)

/-- A member whose value is refused has its record refused. -/
theorem scan_members_refused (key : String) (blank : ∀ c ∈ blanks, isBlank c = true)
    (first : scanValue depth fuel text = none) :
    scanMembers depth (fuel + 1) (quote (some key) ++ ':' :: (blanks ++ text)) = none := by
  rw [scan_members_key key blank, first]
  rfl

/-- The member before the closing brace is the last one. -/
theorem scan_members_last {ending : List Char} {value : Json} (key : String)
    (blank : ∀ c ∈ blanks, isBlank c = true) (closing : ∀ c ∈ ending, isBlank c = true)
    (first : scanValue depth fuel text = some (value, ending ++ '\x7d' :: rest)) :
    scanMembers depth (fuel + 1) (quote (some key) ++ ':' :: (blanks ++ text)) =
      some ([(some key, value)], rest) := by
  rw [scan_members_key key blank, first]
  simp [skip_blanks_append closing, skip_blanks_cons (c := '\x7d') rfl]

/-- After a comma the record continues. -/
theorem scan_members_next {value : Json} (key : String) (blank : ∀ c ∈ blanks, isBlank c = true)
    (first : scanValue depth fuel text = some (value, ',' :: rest)) :
    scanMembers depth (fuel + 1) (quote (some key) ++ ':' :: (blanks ++ text)) =
      (scanMembers depth fuel rest).map fun (members, rest) =>
        ((some key, value) :: members, rest) := by
  rw [scan_members_key key blank, first]
  change (scanMembers depth fuel rest).bind _ = _
  cases scanMembers depth fuel rest <;> rfl

end Parts

/-- Nothing continues a number at the end of a text. -/
theorem empty_ends_number : EndsNumber [] := nofun

/-- No comma continues a number. -/
theorem comma_ends_number (text : List Char) : EndsNumber (',' :: text) := by
  intro c member
  cases member
  rfl

/-- No blank continues a number, nor does a mark that may follow a value. -/
theorem ends_number {blanks : List Char} (blank : ∀ c ∈ blanks, isBlank c = true) {mark : Char}
    (ends : isNumeralPart mark = false) (text : List Char) :
    EndsNumber (blanks ++ mark :: text) := by
  have apart (c : Char) (space : isBlank c = true) : isNumeralPart c = false := by
    simp only [isBlank, Bool.or_eq_true, beq_iff_eq] at space
    rcases space with ((rfl | rfl) | rfl) | rfl <;> decide
  cases blanks with
  | nil =>
    intro c member
    cases member
    exact ends
  | cons c blanks =>
    intro c member
    cases member
    exact apart c (blank c (by simp))

variable (style : Style)

/-- What is written starts with a character that neither is skipped nor closes a list. -/
theorem spell_starts (level : Nat) {document : Json} (readable : document.isReadable = true) :
    ∃ c text, spell style level document = c :: text ∧ isBlank c = false ∧ c ≠ ']' := by
  match document with
  | .null => exact ⟨_, _, rfl, rfl, by decide⟩
  | .bool true => exact ⟨_, _, rfl, rfl, by decide⟩
  | .bool false => exact ⟨_, _, rfl, rfl, by decide⟩
  | .string text => exact ⟨_, _, rfl, rfl, by decide⟩
  | .array [] => exact ⟨_, _, rfl, rfl, by decide⟩
  | .array (item :: rest) => exact ⟨'[', _, rfl, rfl, by decide⟩
  | .object [] => exact ⟨_, _, rfl, rfl, by decide⟩
  | .object (member :: rest) => exact ⟨'\x7b', _, rfl, rfl, by decide⟩
  | .number spelling =>
    obtain ⟨c, text, spelled, starts⟩ := number_starts (numeral_of_readable readable)
    exact ⟨c, text, spelled, visible_of_starts starts, other_of_starts starts (by decide)⟩

/-- The items of a list start with a character that neither is skipped nor closes the list, after the
blanks of their level. -/
theorem spell_items_start (level : Nat) (items : List Json) (filled : items ≠ [])
    (readable : areReadable items = true) :
    ∃ c text, spellItems style level items = style.gap level ++ c :: text ∧ isBlank c = false ∧
      c ≠ ']' := by
  match items with
  | [] => exact absurd rfl filled
  | [item] =>
    obtain ⟨c, text, spelled, apart⟩ := spell_starts style level (Bool.and_eq_true_iff.mp readable).1
    exact ⟨c, text, by rw [spellItems, spelled], apart⟩
  | item :: next :: rest =>
    obtain ⟨c, text, spelled, apart⟩ := spell_starts style level (Bool.and_eq_true_iff.mp readable).1
    exact ⟨c, text ++ ',' :: spellItems style level (next :: rest),
      by rw [spell_items_next, spelled, List.cons_append], apart⟩

/-- The members of a record start with a quotation mark, after the blanks of their level. -/
theorem spell_members_start (level : Nat) (members : List (Option String × Json))
    (filled : members ≠ []) :
    ∃ text, spellMembers style level members = style.gap level ++ '"' :: text := by
  match members with
  | [] => exact absurd rfl filled
  | [(key, value)] => exact ⟨_, spell_members_last style level key value⟩
  | (key, value) :: next :: rest => exact ⟨_, spell_members_next style level key value next rest⟩

mutual

/-- A document is read back from its spelling if it does not nest too deep, and refused otherwise. -/
theorem spelled_scanned (level : Nat) (document : Json) (readable : document.isReadable = true)
    (depth fuel : Nat) (enough : 2 * (spell style level document).length ≤ fuel + 1)
    {rest : List Char} (ends : EndsNumber rest) :
    scanValue depth fuel (spell style level document ++ rest) =
      if document.levels ≤ depth then some (document, rest) else none := by
  obtain ⟨c, text, spelled, visible, opened⟩ := spell_starts style level readable
  obtain ⟨fuel, rfl⟩ : ∃ less, fuel = less + 1 := by
    rw [spelled, List.length_cons] at enough
    exact Nat.exists_eq_succ_of_ne_zero (by omega)
  match document with
  | .null | .bool true | .bool false => rfl
  | .number spelling =>
    have numeral := numeral_of_readable readable
    obtain ⟨c, text, shape, starts⟩ := number_starts numeral
    change scanValue depth (fuel + 1) (spelling.toList ++ rest) = some (.number spelling, rest)
    rw [← number_scanned numeral ends, shape]
    exact scan_value_number starts depth fuel (text ++ rest)
  | .string none => exact nomatch readable
  | .string (some content) =>
    obtain ⟨spelling, shape, scanned⟩ := quoted_scanned content rest
    change scanValue depth (fuel + 1) (quote (some content) ++ rest) = _
    rw [shape]
    change (scanString spelling).map _ = _
    rw [scanned]
    rfl
  | .array [] => cases depth <;> rfl
  | .object [] => cases depth <;> rfl
  | .array (item :: items) =>
    rw [spell_array] at enough ⊢
    obtain ⟨c, text, spelled, visible, opened⟩ :=
      spell_items_start style (level + 1) (item :: items) nofun readable
    -- Opening a list takes a level. Without one left it is refused, and a list nests deeper than that.
    cases depth with
    | zero => rfl
    | succ depth =>
      have scanned := spelled_items_scanned (level + 1) (item :: items) nofun readable depth fuel
        (by simp at enough; omega) (style.gap_blank level) rest
      rw [spelled, List.append_assoc, blanks_before_items (style.gap_blank _), List.cons_append]
        at scanned
      rw [spelled]
      simp only [List.cons_append, List.append_assoc, List.nil_append]
      rw [scan_value_items (style.gap_blank _) visible opened, scanned, levels]
      by_cases deep : levelsOf (item :: items) ≤ depth
      · simp [deep]
      · simp [deep]
  | .object (member :: members) =>
    rw [spell_object] at enough ⊢
    obtain ⟨text, spelled⟩ :=
      spell_members_start style (level + 1) (member :: members) nofun
    cases depth with
    | zero => rfl
    | succ depth =>
      have scanned := spelled_members_scanned (level + 1) (member :: members) nofun readable depth fuel
        (by simp at enough; omega) (style.gap_blank level) rest
      rw [spelled, List.append_assoc, blanks_before_members (style.gap_blank _), List.cons_append]
        at scanned
      rw [spelled]
      simp only [List.cons_append, List.append_assoc, List.nil_append]
      rw [scan_value_members (style.gap_blank _), scanned, levels]
      by_cases deep : levelsOfMembers (member :: members) ≤ depth
      · simp [deep]
      · simp [deep]

/-- The items of a list are read back. -/
theorem spelled_items_scanned (level : Nat) (items : List Json) (filled : items ≠ [])
    (readable : areReadable items = true) (depth fuel : Nat)
    (enough : 2 * (spellItems style level items).length ≤ fuel) {blanks : List Char}
    (blank : ∀ c ∈ blanks, isBlank c = true) (rest : List Char) :
    scanItems depth fuel (spellItems style level items ++ (blanks ++ ']' :: rest)) =
      if levelsOf items ≤ depth then some (items, rest) else none := by
  obtain ⟨c, text, spelled, -⟩ := spell_items_start style level items filled readable
  obtain ⟨fuel, rfl⟩ : ∃ less, fuel = less + 1 := by
    rw [spelled, List.length_append, List.length_cons] at enough
    exact Nat.exists_eq_succ_of_ne_zero (by omega)
  match items with
  | [] => exact absurd rfl filled
  | [item] =>
    have readableItem := (Bool.and_eq_true_iff.mp readable).1
    rw [spellItems, List.length_append] at enough
    have first : scanValue depth fuel (spell style level item ++ (blanks ++ ']' :: rest)) = _ :=
      spelled_scanned level item readableItem depth fuel (by omega) (ends_number blank rfl rest)
    rw [spellItems, List.append_assoc, blanks_before_items (style.gap_blank _)]
    by_cases deep : item.levels ≤ depth
    · rw [if_pos deep] at first
      rw [scan_items_last blank first, if_pos (by simpa [levelsOf] using deep)]
    · rw [if_neg deep] at first
      rw [scan_items_refused first, if_neg (by simpa [levelsOf] using deep)]
  | item :: next :: items =>
    obtain ⟨readableItem, readableRest⟩ := Bool.and_eq_true_iff.mp readable
    simp only [spell_items_next, List.length_append, List.length_cons] at enough
    have first := spelled_scanned level item readableItem depth fuel (by omega)
      (comma_ends_number (spellItems style level (next :: items) ++ (blanks ++ ']' :: rest)))
    have others := spelled_items_scanned level (next :: items) nofun readableRest depth fuel (by omega)
      blank rest
    rw [spell_items_next, List.append_assoc, blanks_before_items (style.gap_blank _), List.append_assoc,
      List.cons_append]
    by_cases deep : item.levels ≤ depth
    · rw [if_pos deep] at first
      rw [scan_items_next first, others]
      by_cases deeper : levelsOf (next :: items) ≤ depth
      · rw [if_pos deeper, levelsOf, if_pos (Nat.max_le.mpr ⟨deep, deeper⟩)]
        rfl
      · rw [if_neg deeper, levelsOf, if_neg (fun both => deeper (Nat.max_le.mp both).2)]
        rfl
    · rw [if_neg deep] at first
      rw [scan_items_refused first, levelsOf, if_neg (fun both => deep (Nat.max_le.mp both).1)]

/-- The members of a record are read back. -/
theorem spelled_members_scanned (level : Nat) (members : List (Option String × Json))
    (filled : members ≠ []) (readable : areMembersReadable members = true) (depth fuel : Nat)
    (enough : 2 * (spellMembers style level members).length ≤ fuel)
    {blanks : List Char} (blank : ∀ c ∈ blanks, isBlank c = true) (rest : List Char) :
    scanMembers depth fuel (spellMembers style level members ++ (blanks ++ '\x7d' :: rest)) =
      if levelsOfMembers members ≤ depth then some (members, rest) else none := by
  obtain ⟨text, spelled⟩ := spell_members_start style level members filled
  obtain ⟨fuel, rfl⟩ : ∃ less, fuel = less + 1 := by
    rw [spelled, List.length_append, List.length_cons] at enough
    exact Nat.exists_eq_succ_of_ne_zero (by omega)
  match members with
  | [] => exact absurd rfl filled
  | (none, _) :: _ => exact nomatch readable
  | [(some key, value)] =>
    have readableValue := (Bool.and_eq_true_iff.mp readable).1
    simp only [spell_members_last, List.length_append, List.length_cons] at enough
    have first : scanValue depth fuel (spell style level value ++ (blanks ++ '\x7d' :: rest)) = _ :=
      spelled_scanned level value readableValue depth fuel (by omega) (ends_number blank rfl rest)
    rw [spell_members_last]
    simp only [List.append_assoc, List.cons_append]
    rw [blanks_before_members (style.gap_blank _)]
    by_cases deep : value.levels ≤ depth
    · rw [if_pos deep] at first
      rw [scan_members_last key style.valueGap_blank blank first,
        if_pos (by simpa [levelsOfMembers] using deep)]
    · rw [if_neg deep] at first
      rw [scan_members_refused key style.valueGap_blank first,
        if_neg (by simpa [levelsOfMembers] using deep)]
  | (some key, value) :: next :: members =>
    obtain ⟨readableValue, readableRest⟩ := Bool.and_eq_true_iff.mp readable
    simp only [spell_members_next, List.length_append, List.length_cons] at enough
    have first := spelled_scanned level value readableValue depth fuel (by omega)
      (comma_ends_number (spellMembers style level (next :: members) ++ (blanks ++ '\x7d' :: rest)))
    have others := spelled_members_scanned level (next :: members) nofun readableRest depth fuel
      (by omega) blank rest
    rw [spell_members_next]
    simp only [List.append_assoc, List.cons_append]
    rw [blanks_before_members (style.gap_blank _)]
    by_cases deep : value.levels ≤ depth
    · rw [if_pos deep] at first
      rw [scan_members_next key style.valueGap_blank first, others]
      by_cases deeper : levelsOfMembers (next :: members) ≤ depth
      · rw [if_pos deeper, levelsOfMembers, if_pos (Nat.max_le.mpr ⟨deep, deeper⟩)]
        rfl
      · rw [if_neg deeper, levelsOfMembers, if_neg (fun both => deeper (Nat.max_le.mp both).2)]
        rfl
    · rw [if_neg deep] at first
      rw [scan_members_refused key style.valueGap_blank first, levelsOfMembers,
        if_neg (fun both => deep (Nat.max_le.mp both).1)]

end

/-- A readable document is read back from a text that spells it in a style, exactly if it keeps within
the depth limit. -/
theorem spelled_read (document : Json) (readable : document.isReadable = true) :
    ofText? (String.ofList (spell style 0 document)) =
      if document.levels ≤ depthLimit then some document else none := by
  have scanned := spelled_scanned style 0 document readable depthLimit
    (2 * (spell style 0 document).length + 1) (by omega) empty_ends_number
  rw [List.append_nil] at scanned
  simp only [ofText?, String.toList_ofList, scanned]
  by_cases deep : document.levels ≤ depthLimit
  · simp [deep, skipBlanks]
  · simp [deep]

/-- The form on one line is read back exactly if the document keeps within the depth limit. -/
theorem compact_read (document : Json) (readable : document.isReadable = true) :
    ofText? document.compact = if document.levels ≤ depthLimit then some document else none := by
  rw [compact, spell_compact_eq 0 document]
  exact spelled_read .compact document readable

/-- The indented form is read back exactly if the document keeps within the depth limit. -/
theorem pretty_read (document : Json) (readable : document.isReadable = true) :
    ofText? document.pretty = if document.levels ≤ depthLimit then some document else none := by
  rw [pretty, spell_indented_eq 0 document]
  exact spelled_read .indented document readable

end ProgramSearch.Json
