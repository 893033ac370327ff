import ProgramSearch.Proofs.Number.Arithmetic
import ProgramSearch.Proofs.Number.Binary
import ProgramSearch.Proofs.Number.Sum

/-!
# Addition is monotone

Numbers other than "not a number" lie on a line between the two infinities. Adding larger numbers
gives no smaller sum, although sums are rounded and may overflow.

For doubles this follows from what rounding does to a rational number. It cuts the number at a last
place that only depends on the magnitude and takes the nearest significand there. Last place and
significand, read as one number, are the height of the double on the line, also when the significand
has overflowed into the next last place, and also beyond the last double, where all heights are cut to
the one of the infinity. A larger magnitude has a larger last place, or the same one and no smaller
nearest significand, so rounding keeps the order. The sum of two doubles is the rounded sum of their
exact values, and these are in the order of the doubles.
-/

namespace ProgramSearch

namespace Number

/-- Numbers other than "not a number" lie on a line from one infinity to the other. The total order of
ranks refines the order on this line, and no two numbers share a rank. -/
structure ScaleLaws (α : Type) [Number α] : Prop where
  defined_of_at_most : ∀ x y : α, atMost x y = true → isNaN x = false ∧ isNaN y = false
  at_most_trans : ∀ x y z : α, atMost x y = true → atMost y z = true → atMost x z = true
  equal_of_at_most : ∀ x y : α, atMost x y = true → atMost y x = true → equal x y = true
  apart_of_below : ∀ x y : α, below x y = true → atMost y x = false
  at_most_of_rank : ∀ x y : α, isNaN x = false → isNaN y = false → rank x ≤ rank y →
    atMost x y = true
  lowest_at_most : ∀ x : α, isNaN x = false → atMost negativeInfinity x = true
  at_most_infinity : ∀ x : α, isNaN x = false → atMost x infinity = true
  lowest_below_infinity : below (negativeInfinity : α) infinity = true
  rank_injective : ∀ x y : α, rank x = rank y → x = y

/-- Adding larger numbers, finite ones to any numbers, gives no smaller sum. -/
structure MonotoneLaws (α : Type) [Number α] : Prop where
  add_mono : ∀ x y x' y' : α, atMost x x' = true → atMost y y' = true → isFinite y = true →
    isFinite y' = true → atMost (add x y) (add x' y') = true

end Number

namespace Double

open Float.Model Float.Model.UnpackedFloat

section Scale

/-- One double is at most another one exactly when its place is. -/
theorem at_most_iff (x y : Float) :
    Number.atMost x y = true ↔ ∃ p q, place? x = some p ∧ place? y = some q ∧ p ≤ q := by
  rw [Number.atMost, Bool.or_eq_true, below_iff, equal_places_iff]
  constructor
  · rintro (⟨p, q, left, right, less⟩ | ⟨p, left, right⟩)
    · exact ⟨p, q, left, right, less.le⟩
    · exact ⟨p, p, left, right, le_rfl⟩
  · rintro ⟨p, q, left, right, ordered⟩
    rcases ordered.lt_or_eq with less | rfl
    · exact .inl ⟨p, q, left, right, less⟩
    · exact .inr ⟨p, left, right⟩

/-- Numbers are those that have a place. -/
theorem place_of_defined {x : Float} (defined : Number.isNaN x = false) : ∃ p, place? x = some p :=
  ⟨_, place_iff.mpr ⟨(defined_iff x).mp defined, rfl⟩⟩

/-- What has a place is a number. -/
theorem defined_of_place {x : Float} {p : ℤ} (placed : place? x = some p) :
    Number.isNaN x = false :=
  (defined_iff x).mpr (place_iff.mp placed).1

/-- A double is known from its rank. -/
theorem rank_injective {x y : Float} (same : rank x = rank y) : x = y := by
  have bounded := x.toBits.toNat_lt
  have alsoBounded := y.toBits.toNat_lt
  have first := rank_cases x
  have second := rank_cases y
  exact Float.toBits_inj.mp (UInt64.toNat_inj.mp (by omega))

/-- Doubles lie on a line. -/
theorem scale_laws : Number.ScaleLaws Float where
  defined_of_at_most x y ordered := by
    obtain ⟨p, q, left, right, _⟩ := (at_most_iff x y).mp ordered
    exact ⟨defined_of_place left, defined_of_place right⟩
  at_most_trans x y z first second := by
    obtain ⟨p, q, left, middle, low⟩ := (at_most_iff x y).mp first
    obtain ⟨q', r, same, right, high⟩ := (at_most_iff y z).mp second
    obtain rfl := Option.some.inj (middle.symm.trans same)
    exact (at_most_iff x z).mpr ⟨p, r, left, right, low.trans high⟩
  equal_of_at_most x y first second := by
    obtain ⟨p, q, left, right, low⟩ := (at_most_iff x y).mp first
    obtain ⟨q', p', right', left', high⟩ := (at_most_iff y x).mp second
    obtain rfl := Option.some.inj (left.symm.trans left')
    obtain rfl := Option.some.inj (right.symm.trans right')
    exact (equal_places_iff x y).mpr ⟨p, left, le_antisymm low high ▸ right⟩
  apart_of_below x y lower := by
    obtain ⟨p, q, left, right, less⟩ := (below_iff x y).mp lower
    rw [Bool.eq_false_iff]
    intro higher
    obtain ⟨q', p', right', left', ordered⟩ := (at_most_iff y x).mp higher
    obtain rfl := Option.some.inj (left.symm.trans left')
    obtain rfl := Option.some.inj (right.symm.trans right')
    exact less.not_ge ordered
  at_most_of_rank x y definedX definedY ordered := by
    obtain ⟨p, left⟩ := place_of_defined definedX
    obtain ⟨q, right⟩ := place_of_defined definedY
    have first := rank_of_place left
    have second := rank_of_place right
    change rank x ≤ rank y at ordered
    exact (at_most_iff x y).mpr ⟨p, q, left, right, by omega⟩
  lowest_at_most x defined := by
    obtain ⟨p, placed⟩ := place_of_defined defined
    have lowest : place? (Number.negativeInfinity : Float) = some (-(top : ℤ)) := by decide +kernel
    exact (at_most_iff _ x).mpr ⟨_, p, lowest, placed, (place_bounds placed).1⟩
  at_most_infinity x defined := by
    obtain ⟨p, placed⟩ := place_of_defined defined
    have highest : place? (Number.infinity : Float) = some (top : ℤ) := by decide +kernel
    exact (at_most_iff x _).mpr ⟨p, _, placed, highest, (place_bounds placed).2⟩
  lowest_below_infinity := by
    rw [below_iff]
    exact ⟨-(top : ℤ), top, by decide +kernel, by decide +kernel, by decide⟩
  rank_injective _ _ := rank_injective

end Scale

section Rounding

/-- The height of a significand and a last place. A significand that has overflowed is as high as half
of it at the next place. -/
def settledHeight (whole : ℕ) (place : ℤ) : ℕ := (place + 1074).toNat * 2 ^ 52 + whole

/-- A significand that is nearest to a magnitude at its last place. -/
structure Settles (magnitude : ℚ) (whole : ℕ) (place : ℤ) : Prop where
  nearest : Nearest (magnitude / 2 ^ place) whole
  bounded : whole ≤ 2 ^ 53
  least : -1074 ≤ place
  above : magnitude < 2 ^ (53 + place)
  full : place = -1074 ∨ 2 ^ (52 + place) ≤ magnitude

namespace Settles

variable {magnitude other : ℚ} {whole whole' : ℕ} {place place' : ℤ}

/-- Zero is nearest to itself at the least place. -/
theorem zero : Settles 0 0 (-1074) where
  nearest := by
    constructor <;> exact .inl (by norm_num)
  bounded := Nat.zero_le _
  least := le_rfl
  above := by positivity
  full := .inl rfl

/-- A significand has all its places unless the last place is the least one. -/
theorem normal (settles : Settles magnitude whole place) : 2 ^ 52 ≤ whole ∨ place = -1074 :=
  full_of_nearest settles.nearest settles.full

/-- A larger magnitude has no smaller last place. -/
theorem place_le (first : Settles magnitude whole place) (second : Settles other whole' place')
    (ordered : magnitude ≤ other) : place ≤ place' := by
  by_contra! less
  have large := first.full.resolve_left (by have := second.least; omega)
  have power : (2 : ℚ) ^ (53 + place') ≤ 2 ^ (52 + place) :=
    zpow_le_zpow_right₀ (by norm_num) (by omega)
  exact absurd (second.above.trans_le (power.trans large)) ordered.not_gt

/-- A larger magnitude has no smaller height. -/
theorem height_le (first : Settles magnitude whole place) (second : Settles other whole' place')
    (ordered : magnitude ≤ other) : settledHeight whole place ≤ settledHeight whole' place' := by
  have least := first.least
  have bounded := first.bounded
  rw [settledHeight, settledHeight]
  rcases (first.place_le second ordered).lt_or_eq with less | rfl
  · have normal := second.normal.resolve_right (by omega)
    have next : (place + 1074).toNat + 1 ≤ (place' + 1074).toNat := by omega
    omega
  · have scaled : magnitude / 2 ^ place ≤ other / 2 ^ place :=
      div_le_div_of_nonneg_right ordered (by positivity)
    exact Nat.add_le_add_left (first.nearest.mono second.nearest scaled) _

end Settles

/-- A rational number is rounded to a place on the line. -/
inductive RoundsTo : ℚ → ℤ → Prop where
  | above {magnitude : ℚ} {whole : ℕ} {place : ℤ} :
      0 ≤ magnitude → Settles magnitude whole place →
      RoundsTo magnitude (min top (settledHeight whole place) : ℕ)
  | below {magnitude : ℚ} {whole : ℕ} {place : ℤ} :
      0 ≤ magnitude → Settles magnitude whole place →
      RoundsTo (-magnitude) (-(min top (settledHeight whole place) : ℕ))

namespace RoundsTo

/-- Rounding keeps the order. -/
theorem le {first second : ℚ} {p q : ℤ} (left : RoundsTo first p) (right : RoundsTo second q)
    (ordered : first ≤ second) : p ≤ q := by
  cases left with
  | above positive settles =>
    cases right with
    | above _ other =>
      have heights := settles.height_le other ordered
      omega
    | below negative other =>
      -- Both numbers are zero.
      have first := settles.height_le .zero (by linarith)
      have second := other.height_le .zero (by linarith)
      have bottom : settledHeight 0 (-1074) = 0 := rfl
      omega
  | below positive settles =>
    cases right with
    | above _ other => omega
    | below _ other =>
      have heights := other.height_le settles (by linarith)
      omega

end RoundsTo

end Rounding

section Placing

variable {x : Float} {sign : Sign} {mantissa : ℕ} {exponent : ℤ}

/-- A zero is in the middle of the line. -/
theorem place_of_zero (unpacked : x.toModel.unpack = .zero sign) : place? x = some 0 := by
  have formed := shape x
  rw [unpacked] at formed
  refine place_iff.mpr ⟨unpacked ▸ nofun, ?_⟩
  cases formed with
  | zero bottom =>
    rw [bottom]
    cases Double.sign x <;> rfl

/-- An infinity is at the end of the line on its side. -/
theorem place_of_infinity (unpacked : x.toModel.unpack = .infinity sign) :
    place? x = some (sign.apply top) := by
  have formed := shape x
  rw [unpacked] at formed
  refine place_iff.mpr ⟨unpacked ▸ nofun, ?_⟩
  cases formed with
  | infinity highest => rw [highest]

/-- A significand that a double is unpacked to settles its value, and the height of both is that of
the double. -/
theorem Unpacks.settles {height : ℕ} (unpacks : Unpacks height mantissa exponent) :
    Settles (mantissa * 2 ^ exponent) mantissa exponent ∧
      settledHeight mantissa exponent = height := by
  obtain ⟨positive, inside, lowered, small, large⟩ := unpacks
  have unit : (0 : ℚ) < 2 ^ exponent := by positivity
  have bounded : mantissa < 2 ^ 53 := by omega
  have least : -1074 ≤ exponent := by omega
  have full : exponent = -1074 ∨ 2 ^ 52 ≤ mantissa := by omega
  refine ⟨⟨?_, bounded.le, least, ?_, ?_⟩, ?_⟩
  · rw [mul_div_cancel_right₀ _ unit.ne']
    constructor <;> exact .inl (by linarith)
  · rw [zpow_add₀ (by norm_num)]
    exact mul_lt_mul_of_pos_right (by exact_mod_cast bounded) unit
  · refine full.imp_right fun large => ?_
    rw [zpow_add₀ (by norm_num)]
    exact mul_le_mul_of_nonneg_right (by exact_mod_cast large) unit.le
  · rw [settledHeight]
    omega

/-- A double with a significand and an exponent has its place from them. -/
theorem place_of_finite {positive : 0 < mantissa}
    (unpacked : x.toModel.unpack = .finite sign mantissa exponent positive) :
    Unpacks (height x) mantissa exponent ∧
      place? x = some (sign.apply (settledHeight mantissa exponent)) := by
  have formed := shape x
  rw [unpacked] at formed
  have defined : x.toModel.unpack ≠ .notANumber := unpacked ▸ nofun
  generalize signed : Double.sign x = s at formed
  cases formed with
  | finite unpacks =>
    refine ⟨unpacks, place_iff.mpr ⟨defined, ?_⟩⟩
    rw [signed, unpacks.settles.2]

/-- A significand with all its places is packed to its height, or to the infinity when it is beyond
the last double. -/
theorem place_of_pack (sign : Sign) (positive : 0 < mantissa) (bounded : mantissa < 2 ^ 53)
    (least : -1074 ≤ exponent) (full : 2 ^ 52 ≤ mantissa ∨ exponent = -1074) :
    place? (.ofModel (.pack (.finite sign mantissa exponent positive))) =
      some (sign.apply (min top (settledHeight mantissa exponent) : ℕ)) := by
  by_cases greatest : exponent ≤ 971
  · have inside : min top (settledHeight mantissa exponent) = settledHeight mantissa exponent := by
      rw [Nat.min_eq_right]
      simp only [settledHeight, top]
      omega
    have kept : (Float.Model.pack (.finite sign mantissa exponent positive)).unpack =
        .finite sign mantissa exponent positive := by
      rcases Nat.lt_or_ge mantissa (2 ^ 52) with small | large
      · obtain rfl := full.resolve_left small.not_ge
        exact unpack_pack_least sign positive small
      · exact unpack_pack_normal sign positive large bounded least greatest
    rw [inside]
    exact (place_of_finite kept).2
  · have beyond : min top (settledHeight mantissa exponent) = top := by
      rw [Nat.min_eq_left]
      simp only [settledHeight, top]
      omega
    have overflows : (Float.Model.pack (.finite sign mantissa exponent positive)).unpack =
        .infinity sign := by
      change UnpackedFloat.unpack .binary64 (UnpackedFloat.pack .binary64 _) = _
      rw [pack_finite, if_pos (by omega), infinity_packed]
    rw [beyond]
    exact place_of_infinity overflows

/-- What a magnitude is settled to is packed to its height on the side of the sign. -/
theorem place_of_settled (sign : Sign) {magnitude : ℚ} {whole : ℕ} {place : ℤ}
    (settles : Settles magnitude whole place) :
    place? (.ofModel (.pack (settled sign whole place))) =
      some (sign.apply (min top (settledHeight whole place) : ℕ)) := by
  have least := settles.least
  have bounded := settles.bounded
  have normal := settles.normal
  rw [settled]
  split
  · rename_i zero
    obtain rfl := normal.resolve_left (by omega)
    subst zero
    cases sign <;> decide +kernel
  split
  · rename_i overflow
    have same : settledHeight whole place = settledHeight (2 ^ 52) (place + 1) := by
      simp only [settledHeight, overflow]
      omega
    rw [same]
    exact place_of_pack sign _ (by decide) (by omega) (.inl le_rfl)
  · rename_i positive other
    exact place_of_pack sign _ (by omega) least normal

/-- A significand and an exponent are rounded to a double. -/
theorem round_places (sign : Sign) (positive : 0 < mantissa) (exponent : ℤ) :
    ∃ whole place, Settles (mantissa * 2 ^ exponent) whole place ∧
      place? (.ofModel (.pack (UnpackedFloat.round Format.binary64 sign mantissa exponent))) =
        some (sign.apply (min top (settledHeight whole place) : ℕ)) := by
  obtain ⟨shifted, lower, same, represents, upward⟩ := round_shifts sign positive exponent
  obtain ⟨whole, place, settles, nearest, bounded, least, above, full⟩ :=
    round_spec sign represents upward
  have settling : Settles (mantissa * 2 ^ exponent) whole place :=
    ⟨nearest, bounded, least, above, full⟩
  refine ⟨whole, place, settling, ?_⟩
  rw [same, settles]
  exact place_of_settled sign settling

/-- What settles a magnitude rounds it with either sign. -/
theorem Settles.rounds (sign : Sign) {whole : ℕ} {place : ℤ}
    (settles : Settles (mantissa * 2 ^ exponent) whole place) :
    RoundsTo ((sign.apply mantissa : ℤ) * 2 ^ exponent)
      (sign.apply (min top (settledHeight whole place) : ℕ)) := by
  have positive : (0 : ℚ) ≤ mantissa * 2 ^ exponent := by positivity
  cases sign with
  | positive => exact .above positive settles
  | negative =>
    rw [apply_negative, Int.cast_neg, neg_mul]
    exact .below positive settles

/-- A whole number with an exponent is rounded to a double. -/
theorem normalize_places (whole exponent : ℤ) :
    ∃ p, place? (.ofModel (.pack
        (UnpackedFloat.normalize Format.binary64 whole exponent .positive))) = some p ∧
      RoundsTo (whole * 2 ^ exponent) p := by
  unfold UnpackedFloat.normalize
  split <;> rename_i order
  · have negative := Int.compare_eq_lt.mp order
    obtain ⟨mantissa, rfl⟩ : ∃ mantissa : ℕ, whole = Sign.negative.apply mantissa :=
      ⟨(-whole).toNat, by simp only [apply_negative]; omega⟩
    rw [apply_negative] at negative
    have some_ : 0 < mantissa := by omega
    obtain ⟨final, place, settles, placed⟩ := round_places .negative some_ exponent
    refine ⟨_, ?_, settles.rounds .negative⟩
    rw [apply_negative, neg_neg, Int.toNat_natCast]
    exact placed
  · obtain rfl := Int.compare_eq_eq.mp order
    refine ⟨0, by decide +kernel, ?_⟩
    rw [Int.cast_zero, zero_mul]
    exact .above le_rfl .zero
  · have positive := Int.compare_eq_gt.mp order
    obtain ⟨mantissa, rfl⟩ : ∃ mantissa : ℕ, whole = mantissa := ⟨whole.toNat, by omega⟩
    have some_ : 0 < mantissa := by omega
    obtain ⟨final, place, settles, placed⟩ := round_places .positive some_ exponent
    exact ⟨_, placed, settles.rounds .positive⟩

end Placing

section Values

variable {x y : Float} {v w : Binary}

/-- A double that has an exact value is unpacked to a zero or to a significand and an exponent, and is
rounded from that value to its place. -/
theorem value_cases (valued : exact x = some v) :
    (∃ sign, x.toModel.unpack = .zero sign ∧ v.toRat = 0) ∨
      ∃ sign mantissa exponent positive, x.toModel.unpack = .finite sign mantissa exponent positive ∧
        v = ⟨sign.apply mantissa, exponent⟩ := by
  rw [exact_eq] at valued
  cases unpacked : x.toModel.unpack with
  | infinity | notANumber =>
    rw [unpacked] at valued
    cases valued
  | zero sign =>
    rw [unpacked] at valued
    cases valued
    exact .inl ⟨sign, rfl, by rw [Binary.toRat, Int.cast_zero, zero_mul]⟩
  | finite sign mantissa exponent positive =>
    rw [unpacked] at valued
    cases valued
    exact .inr ⟨sign, mantissa, exponent, positive, rfl, rfl⟩

/-- The exact value of a double is rounded to its place. -/
theorem value_places (valued : exact x = some v) : ∃ p, place? x = some p ∧ RoundsTo v.toRat p := by
  rcases value_cases valued with ⟨sign, unpacked, zero⟩ | ⟨sign, m, e, positive, unpacked, rfl⟩
  · rw [zero]
    exact ⟨0, place_of_zero unpacked, .above le_rfl .zero⟩
  · obtain ⟨unpacks, placed⟩ := place_of_finite unpacked
    obtain ⟨settles, heights⟩ := unpacks.settles
    have inside : min top (settledHeight m e) = settledHeight m e := by
      rw [heights]
      exact Nat.min_eq_right unpacks.inside.le
    refine ⟨_, placed, ?_⟩
    rw [← inside]
    exact settles.rounds sign

/-- Doubles with exact values are in the order of these. -/
theorem value_le (first : exact x = some v) (second : exact y = some w)
    (ordered : Number.atMost x y = true) : v.toRat ≤ w.toRat := by
  obtain ⟨p, left, rounds⟩ := value_places first
  obtain ⟨q, right, alsoRounds⟩ := value_places second
  obtain ⟨p', q', placed, alsoPlaced, low⟩ := (at_most_iff x y).mp ordered
  obtain rfl := Option.some.inj (left.symm.trans placed)
  obtain rfl := Option.some.inj (right.symm.trans alsoPlaced)
  by_contra! more
  -- Rounding keeps the order, so both doubles share a place, and then they have the same value.
  obtain rfl := le_antisymm low (alsoRounds.le rounds more.le)
  have same := likeness_laws.exact_of_equal x y ((equal_places_iff x y).mpr ⟨p, left, right⟩)
  obtain rfl := Option.some.inj (first.symm.trans (same.trans second))
  exact lt_irrefl _ more

/-- Packing what a double is unpacked to gives the double. -/
theorem pack_of_unpack (x : Float) : Float.ofModel (.pack x.toModel.unpack) = x := by
  have bits := UnpackedFloat.pack_unpack_of_valid x.toModel.valid
  exact Float.toBits_inj.mp (UInt64.toBitVec_inj.mp bits)

/-- A significand can be given more places by lowering its exponent. -/
theorem lowered_value (sign : Sign) (mantissa : ℕ) {exponent lower : ℤ} (down : lower ≤ exponent) :
    ((sign.apply (decreaseExponent mantissa exponent lower).1 : ℤ) * 2 ^ lower : ℚ) =
      (sign.apply mantissa : ℤ) * 2 ^ exponent := by
  obtain ⟨shift, counted⟩ : ∃ shift : ℕ, shift = (exponent - lower).toNat := ⟨_, rfl⟩
  have split : exponent = shift + lower := by omega
  have power : ((mantissa <<< shift : ℕ) * 2 ^ lower : ℚ) = mantissa * 2 ^ exponent := by
    rw [Nat.shiftLeft_eq, split, zpow_add₀ (by norm_num), zpow_natCast]
    push_cast
    ring
  simp only [decreaseExponent, ← counted]
  cases sign with
  | positive =>
    rw [apply_positive, apply_positive, Int.cast_natCast, Int.cast_natCast]
    exact power
  | negative =>
    rw [apply_negative, apply_negative, Int.cast_neg, Int.cast_neg, Int.cast_natCast,
      Int.cast_natCast, neg_mul, neg_mul, power]

/-- The sum of two doubles with exact values is the rounded sum of these. -/
theorem sum_places (first : exact x = some v) (second : exact y = some w) :
    ∃ p, place? (x + y) = some p ∧ RoundsTo (v.toRat + w.toRat) p := by
  have sum : x + y = .ofModel (.pack
      (UnpackedFloat.add Format.binary64 x.toModel.unpack y.toModel.unpack)) := rfl
  rcases value_cases first with ⟨s, left, zero⟩ | ⟨s, m, e, positive, left, rfl⟩
  · rcases value_cases second with ⟨t, right, alsoZero⟩ | ⟨t, n, f, positive, right, rfl⟩
    · rw [sum, left, right, zero, alsoZero, add_zero]
      refine ⟨0, ?_, .above le_rfl .zero⟩
      cases s <;> cases t <;> decide +kernel
    · have same : x + y = y := by
        rw [sum, left, right]
        exact (congrArg _ (congrArg _ right)).symm.trans (pack_of_unpack y)
      rw [same, zero, zero_add]
      exact value_places second
  · rcases value_cases second with ⟨t, right, zero⟩ | ⟨t, n, f, alsoPositive, right, rfl⟩
    · have same : x + y = x := by
        rw [sum, left, right]
        exact (congrArg _ (congrArg _ left)).symm.trans (pack_of_unpack x)
      rw [same, zero, add_zero]
      exact value_places first
    · have whole := normalize_places (s.apply (decreaseExponent m e (min e f)).1 +
        t.apply (decreaseExponent n f (min e f)).1) (min e f)
      rw [Int.cast_add, add_mul, lowered_value s m (min_le_left e f),
        lowered_value t n (min_le_right e f)] at whole
      rw [sum, left, right]
      exact whole

/-- A finite double has an exact value. -/
theorem value_of_finite (finite : Number.isFinite x = true) : ∃ v, exact x = some v := by
  obtain ⟨parts, read⟩ := Option.isSome_iff_exists.mp ((finite_iff x).mp finite)
  exact ⟨_, Option.map_eq_some_iff.mpr ⟨parts, read, rfl⟩⟩

/-- Adding a finite double to an infinity leaves the infinity. -/
theorem add_to_infinity {sign : Sign} (infinite : x.toModel.unpack = .infinity sign)
    (finite : Number.isFinite y = true) : x + y = x := by
  have sum : x + y = .ofModel (.pack
      (UnpackedFloat.add Format.binary64 x.toModel.unpack y.toModel.unpack)) := rfl
  have kept := pack_of_unpack x
  rw [infinite] at kept
  obtain ⟨w, valued⟩ := value_of_finite finite
  rw [sum, infinite]
  rcases value_cases valued with ⟨t, right, _⟩ | ⟨t, n, f, positive, right, _⟩
  · rw [right]
    exact kept
  · rw [right]
    exact kept

/-- Only an infinity is equal to it. -/
theorem eq_of_infinite {sign : Sign} (infinite : y.toModel.unpack = .infinity sign)
    (same : Number.equal x y = true) : x = y := by
  rcases unpack_cases same with ⟨s, t, _, zero⟩ | unpacked
  · rw [infinite] at zero
    cases zero
  · exact eq_of_unpack unpacked

/-- Sums of finite doubles are in the order of the summands. -/
theorem finite_sums_le {x' y' : Float} (first : Number.atMost x x' = true)
    (second : Number.atMost y y' = true) (finite : Number.isFinite x = true)
    (finite' : Number.isFinite x' = true) (alsoFinite : Number.isFinite y = true)
    (alsoFinite' : Number.isFinite y' = true) : Number.atMost (x + y) (x' + y') = true := by
  obtain ⟨v, valued⟩ := value_of_finite finite
  obtain ⟨w, alsoValued⟩ := value_of_finite alsoFinite
  obtain ⟨v', valued'⟩ := value_of_finite finite'
  obtain ⟨w', alsoValued'⟩ := value_of_finite alsoFinite'
  obtain ⟨p, placed, rounds⟩ := sum_places valued alsoValued
  obtain ⟨q, placed', rounds'⟩ := sum_places valued' alsoValued'
  have values := add_le_add (value_le valued valued' first) (value_le alsoValued alsoValued' second)
  exact (at_most_iff _ _).mpr ⟨p, q, placed, placed', rounds.le rounds' values⟩

/-- Adding larger doubles gives no smaller sum. -/
theorem monotone_laws : Number.MonotoneLaws Float where
  add_mono x y x' y' first second finite finite' := by
    obtain ⟨defined, defined'⟩ := scale_laws.defined_of_at_most x x' first
    have sum := sum_laws.add_defined x y defined finite
    have sum' := sum_laws.add_defined x' y' defined' finite'
    change Number.atMost (x + y) (x' + y') = true
    cases bounded : Number.isFinite x with
    | false =>
      rcases not_finite_cases bounded with rfl | rfl | rfl
      · cases defined
      · have same := eq_of_infinite rfl (scale_laws.equal_of_at_most _ _
          (scale_laws.at_most_infinity x' defined') first)
        rw [same, add_to_infinity rfl finite']
        exact scale_laws.at_most_infinity _ sum
      · rw [add_to_infinity rfl finite]
        exact scale_laws.lowest_at_most _ sum'
    | true =>
      cases bounded' : Number.isFinite x' with
      | false =>
        rcases not_finite_cases bounded' with rfl | rfl | rfl
        · cases defined'
        · rw [add_to_infinity rfl finite']
          exact scale_laws.at_most_infinity _ sum
        · have same := eq_of_infinite rfl (scale_laws.equal_of_at_most _ _ first
            (scale_laws.lowest_at_most x defined))
          rw [same] at bounded
          cases bounded
      | true => exact finite_sums_le first second bounded bounded' finite finite'

end Values

end Double

end ProgramSearch
