import ProgramSearch.Json.Reader
import ProgramSearch.Json.Writer

/-!
# Reading quoted strings

A string is written character by character, and each escape is read back as one piece. A control
character without a letter of its own comes back as a unit of sixteen bits, which is no half of a
surrogate pair and hence the same character again. So every text survives between quotation marks,
also one that holds quotation marks itself, such as the stored form of a program within the stored
form of a tree.
-/

namespace ProgramSearch.Json

/-- The sixteen digits are read as what they stand for. -/
theorem hex_value_digit {value : Nat} (small : value < 16) :
    hexValue? (hexDigit value) = some value := by
  have all : ∀ value : Fin 16, hexValue? (hexDigit value) = some value.val := by decide
  exact all ⟨value, small⟩

/-- A control character is read from the number that spells it. -/
theorem unit_control {code : Nat} (control : code < 32) :
    unit? '0' '0' (hexDigit (code / 16)) (hexDigit (code % 16)) = some (.unit code) := by
  have zero : hexValue? '0' = some 0 := by decide
  simp only [unit?, zero, hex_value_digit (show code / 16 < 16 by omega),
    hex_value_digit (show code % 16 < 16 by omega), Option.bind_eq_bind, Option.bind_some]
  exact congrArg (some ∘ Piece.unit) (by omega)

/-- The piece spells the character: it is decoded to it whatever follows. -/
def Piece.Spells (piece : Piece) (c : Char) : Prop :=
  ∀ rest, decode (piece :: rest) = (decode rest).map (c :: ·)

/-- A piece that is a character spells it. -/
theorem Piece.char_spells (c : Char) : (Piece.char c).Spells c := fun _ => rfl

/-- A unit below the surrogates spells the character with its number. -/
theorem Piece.unit_spells {c : Char} (control : c.toNat < 32) : (Piece.unit c.toNat).Spells c := by
  have notHigh : isHighHalf c.toNat = false := by
    simp only [isHighHalf, Bool.and_eq_false_iff, decide_eq_false_iff_not]
    omega
  have notLow : isLowHalf c.toNat = false := by
    simp only [isLowHalf, Bool.and_eq_false_iff, decide_eq_false_iff_not]
    omega
  intro rest
  match rest with
  | [] | .char _ :: _ | .unit _ :: _ => simp [decode, notHigh, notLow]

/-- What is scanned from the spelling of a character is one piece that spells it, and then whatever
follows. -/
theorem escape_scanned (c : Char) :
    ∃ piece : Piece, piece.Spells c ∧
      ∀ text, scanPieces (escape c ++ text) = join (some piece) (scanPieces text) := by
  have numbered (code : Nat) (same : c.toNat = code) : c = Char.ofNat code := by
    rw [← same, Char.ofNat_toNat]
  unfold escape
  split
  case isTrue mark => exact ⟨.char '"', mark ▸ Piece.char_spells _, fun _ => rfl⟩
  split
  case isTrue backslash => exact ⟨.char '\\', backslash ▸ Piece.char_spells _, fun _ => rfl⟩
  split
  case isTrue feed => exact ⟨.char '\n', feed ▸ Piece.char_spells _, fun _ => rfl⟩
  split
  case isTrue carriage => exact ⟨.char '\r', carriage ▸ Piece.char_spells _, fun _ => rfl⟩
  split
  case isTrue tab => exact ⟨.char '\t', tab ▸ Piece.char_spells _, fun _ => rfl⟩
  split
  case isTrue back => exact ⟨.char (Char.ofNat 8), numbered 8 back ▸ Piece.char_spells _, fun _ => rfl⟩
  split
  case isTrue form =>
    exact ⟨.char (Char.ofNat 12), numbered 12 form ▸ Piece.char_spells _, fun _ => rfl⟩
  split
  case isTrue control =>
    refine ⟨.unit c.toNat, Piece.unit_spells control, fun text => ?_⟩
    rw [← unit_control control]
    rfl
  case isFalse notMark notBackslash _ _ _ _ _ printed =>
    refine ⟨.char c, Piece.char_spells c, fun text => ?_⟩
    change scanPieces (c :: text) = _
    simp [scanPieces, notBackslash, printed]

/-- The pieces of an escaped text, up to the quotation mark that ends it, spell that text. -/
theorem pieces_scanned (text rest : List Char) :
    ∃ pieces, scanPieces (text.flatMap escape ++ '"' :: rest) = some (pieces, rest) ∧
      decode pieces = some text := by
  induction text with
  | nil => exact ⟨[], rfl, rfl⟩
  | cons c text inductionHypothesis =>
    obtain ⟨pieces, scanned, decoded⟩ := inductionHypothesis
    obtain ⟨piece, spells, read⟩ := escape_scanned c
    refine ⟨piece :: pieces, ?_, ?_⟩
    · rw [List.flatMap_cons, List.append_assoc, read, scanned]
      rfl
    · rw [spells, decoded]
      rfl

/-- A quoted text is read back, with what stands behind it. -/
theorem quoted_scanned (text : String) (rest : List Char) :
    ∃ spelling, quote (some text) ++ rest = '"' :: spelling ∧
      scanString spelling = some (some text, rest) := by
  obtain ⟨pieces, scanned, decoded⟩ := pieces_scanned text.toList rest
  refine ⟨text.toList.flatMap escape ++ '"' :: rest, by simp [quote], ?_⟩
  simp [scanString, scanned, decoded]

end ProgramSearch.Json
