import ProgramSearch.Document.Record
import ProgramSearch.Proofs.Json.Reading

/-!
# Records that were written

A record that was written names its kind first and every field once, so the kind and the fields are
found again, whatever the fields hold. All of it must be readable: what is examined here is how the
readability and the depth of a record depend on those of its fields.
-/

namespace ProgramSearch.Json

/-- A text is readable. -/
@[simp]
theorem text_readable (content : String) : (text content).isReadable = true := by
  rw [text, isReadable]
  rfl

@[simp]
theorem text_levels (content : String) : (text content).levels = 0 := by
  simp [text, levels]

@[simp]
theorem bool_readable (value : Bool) : (bool value).isReadable = true := by
  simp [isReadable]

/-- A natural number of sixty-four bits is read back. -/
theorem natural_to_natural {value bound : Nat} (word : value < Decimal.Numeral.significandBound)
    (inside : value < bound) : (natural value).toNatural? bound = some value := by
  have whole : Decimal.Numeral.natural?
      ⟨false, Decimal.digitsOf (Decimal.natural value), none, none⟩ = some value := by
    simp [Decimal.Numeral.natural?, Decimal.Numeral.isWhole, Decimal.natural_value, word]
  simp [natural, toNatural?, Decimal.natural_read, whole, inside]

/-- A natural number of sixty-four bits is readable. -/
theorem natural_readable {value : Nat} (word : value < Decimal.Numeral.significandBound) :
    (natural value).isReadable = true := by
  rw [natural, isReadable, toFloat?, Decimal.natural_read, Option.bind_some,
    Decimal.Numeral.toFloat?, Decimal.Numeral.magnitude?]
  simp [Decimal.Numeral.isWhole, Decimal.natural_value, word]

/-- The items of a list are readable when each of them is. -/
theorem are_readable_iff (items : List Json) :
    areReadable items = true ↔ ∀ item ∈ items, item.isReadable = true := by
  induction items with
  | nil => simp [areReadable]
  | cons item rest inductionHypothesis => simp [areReadable, inductionHypothesis]

/-- The items of a list nest within a depth when each of them does. -/
theorem levels_of_le_iff (items : List Json) (depth : Nat) :
    levelsOf items ≤ depth ↔ ∀ item ∈ items, item.levels ≤ depth := by
  induction items with
  | nil => simp [levelsOf]
  | cons item rest inductionHypothesis =>
    simp only [levelsOf, Nat.max_le, inductionHypothesis, List.forall_mem_cons]

end ProgramSearch.Json

namespace ProgramSearch.Document

/-- The members that fields are written as. -/
def membersOf (fields : List (String × Json)) : List (Option String × Json) :=
  fields.map fun (key, value) => (some key, value)

/-- The members are readable when the fields are. -/
theorem members_readable (fields : List (String × Json)) :
    Json.areMembersReadable (membersOf fields) = true ↔
      ∀ value ∈ fields.map Prod.snd, value.isReadable = true := by
  induction fields with
  | nil => simp [membersOf, Json.areMembersReadable]
  | cons field rest inductionHypothesis =>
    rw [membersOf] at inductionHypothesis
    simp [membersOf, Json.areMembersReadable, inductionHypothesis]

/-- The members nest as deep as the fields. -/
theorem members_levels (fields : List (String × Json)) :
    Json.levelsOfMembers (membersOf fields) = Json.levelsOf (fields.map Prod.snd) := by
  induction fields with
  | nil => rfl
  | cons field rest inductionHypothesis =>
    rw [membersOf] at inductionHypothesis
    simp [membersOf, Json.levelsOfMembers, Json.levelsOf, inductionHypothesis]

/-- A key that is not among the fields is not found. -/
theorem member_absent {fields : List (String × Json)} {key : String}
    (absent : key ∉ fields.map Prod.fst) :
    (membersOf fields).filter (·.1 == some key) = [] := by
  rw [List.filter_eq_nil_iff]
  intro member listed same
  obtain ⟨field, inside, rfl⟩ := List.mem_map.mp listed
  exact absent (List.mem_map.mpr ⟨field, inside, by simpa using same⟩)

/-- A field is found under its key when no key is repeated. -/
theorem member_found {fields : List (String × Json)} (distinct : (fields.map Prod.fst).Nodup)
    {key : String} {value : Json} (listed : (key, value) ∈ fields) :
    Json.uniqueMember? (membersOf fields) key = some value := by
  induction fields with
  | nil => exact nomatch listed
  | cons field rest inductionHypothesis =>
    obtain ⟨apart, distinctRest⟩ := List.nodup_cons.mp distinct
    rcases List.mem_cons.mp listed with rfl | later
    · have others := member_absent apart
      rw [membersOf] at others
      simp [Json.uniqueMember?, membersOf, others]
    · have other : field.1 ≠ key := fun same =>
        apart (same ▸ List.mem_map.mpr ⟨(key, value), later, rfl⟩)
      have found := inductionHypothesis distinctRest later
      rw [Json.uniqueMember?, membersOf] at found
      simp [Json.uniqueMember?, membersOf, other, found]

/-- The fields of a record that repeats no key are found under their keys. -/
theorem members_found {fields : List (String × Json)} (distinct : (fields.map Prod.fst).Nodup) :
    ∀ wanted ⊆ fields, (wanted.map Prod.fst).mapM (Json.uniqueMember? (membersOf fields)) =
      some (wanted.map Prod.snd) := by
  intro wanted inside
  induction wanted with
  | nil => rfl
  | cons field rest inductionHypothesis =>
    obtain ⟨first, others⟩ := List.cons_subset.mp inside
    simp [member_found distinct first, inductionHypothesis others]

section Records

variable (kind : String) (fields : List (String × Json))

/-- A record is readable when its fields are. -/
theorem record_readable :
    (record kind fields).isReadable = true ↔ ∀ value ∈ fields.map Prod.snd, value.isReadable = true := by
  rw [record, Json.isReadable]
  change Json.areMembersReadable (membersOf (("kind", .text kind) :: fields)) = true ↔ _
  rw [members_readable]
  simp

/-- A record opens one level more than its fields. -/
@[simp]
theorem record_levels :
    (record kind fields).levels = Json.levelsOf (fields.map Prod.snd) + 1 := by
  rw [record, Json.levels]
  change Json.levelsOfMembers (membersOf (("kind", .text kind) :: fields)) + 1 = _
  rw [members_levels, List.map_cons, Json.levelsOf]
  simp

/-- The kind of a record that was written is found, and then its fields in their order. -/
theorem record_found (declared : List String) (named : fields.map Prod.fst = declared)
    (distinct : ("kind" :: declared).Nodup)
    (readable : ∀ value ∈ fields.map Prod.snd, value.isReadable = true) :
    ∃ found : Fields, kind? (record kind fields) = some (kind, found) ∧
      found.values? declared = some (fields.map Prod.snd) := by
  subst named
  have keyed : ((("kind", Json.text kind) :: fields).map Prod.fst).Nodup := distinct
  refine ⟨.named (membersOf (("kind", .text kind) :: fields)), ?_, ?_⟩
  · unfold kind?
    rw [if_pos ((record_readable kind fields).mpr readable)]
    have found := member_found keyed List.mem_cons_self
    dsimp only [membersOf] at found
    dsimp only [record]
    rw [found]
    rfl
  · exact members_found keyed fields (List.subset_cons_self _ _)

end Records

/-- A number of sixteen bits is readable. -/
@[simp]
theorem short_readable (value : UInt16) : (short value).isReadable = true :=
  Json.natural_readable (Nat.lt_trans value.toNat_lt (by decide))

@[simp]
theorem short_levels (value : UInt16) : (short value).levels = 0 := by
  simp [short, Json.natural, Json.levels]

/-- A number of sixteen bits is read back. -/
@[simp]
theorem short_read (value : UInt16) : short? (short value) = some value := by
  rw [short?, short, Json.natural_to_natural (Nat.lt_trans value.toNat_lt (by decide)) value.toNat_lt]
  simp

end ProgramSearch.Document
