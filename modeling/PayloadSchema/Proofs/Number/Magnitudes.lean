import Mathlib.Algebra.Order.Field.Power
import Mathlib.Algebra.Order.Field.Rat
import PayloadSchema.Conformance.Check

/-! Numbers as rationals. Which numbers have no fraction, and which are less or greater than an integer, is decided
without any rounding: the tests agree with the exact values. -/
namespace PayloadSchema

namespace Binary64

/-- The exact value of a finite number. -/
def value? : Binary64 → Option ℚ
  | finite negative mantissa exponent => some (signedMantissa negative mantissa * (2 : ℚ) ^ exponent)
  | nan | infinite _ => none

theorem twoTo_pos (exponent : Int) : 0 < twoTo exponent := Nat.two_pow_pos _

theorem twoTo_natCast (k : Nat) : twoTo k = 2 ^ k := by simp [twoTo]

theorem twoTo_neg_natCast (k : Nat) : twoTo (-k) = 1 := by simp [twoTo]

/-- A power of two is the ratio of two whole ones, one of which is one. -/
theorem zpow_mul_twoTo (exponent : Int) : (2 : ℚ) ^ exponent * twoTo (-exponent) = twoTo exponent := by
  obtain ⟨k, rfl | rfl⟩ := exponent.eq_nat_or_neg
  · rw [twoTo_neg_natCast, twoTo_natCast, zpow_natCast]
    simp
  · rw [neg_neg, twoTo_neg_natCast, twoTo_natCast, zpow_neg, zpow_natCast, Nat.cast_pow, Nat.cast_one]
    exact inv_mul_cancel₀ (pow_ne_zero k two_ne_zero)

variable {negative : Bool} {mantissa : Nat} {exponent : Int}

theorem signedMantissa_mul (factor : Nat) :
    signedMantissa negative (mantissa * factor) = signedMantissa negative mantissa * factor := by
  cases negative <;> simp [signedMantissa]

theorem natAbs_signedMantissa : (signedMantissa negative mantissa).natAbs = mantissa := by
  cases negative <;> simp [signedMantissa]

/-- A finite number times the denominator of its power of two. -/
theorem value_mul_twoTo :
    signedMantissa negative mantissa * (2 : ℚ) ^ exponent * twoTo (-exponent) =
      (signedMantissa negative (mantissa * twoTo exponent) : ℤ) := by
  rw [mul_assoc, zpow_mul_twoTo, signedMantissa_mul]
  push_cast
  rfl

theorem value_lt_iff {i : Int} :
    signedMantissa negative mantissa * (2 : ℚ) ^ exponent < i ↔
      signedMantissa negative (mantissa * twoTo exponent) < i * twoTo (-exponent) := by
  have positive : (0 : ℚ) < twoTo (-exponent) := Nat.cast_pos.mpr (twoTo_pos _)
  rw [← mul_lt_mul_iff_of_pos_right positive, value_mul_twoTo]
  exact_mod_cast Iff.rfl

theorem lt_value_iff {i : Int} :
    (i : ℚ) < signedMantissa negative mantissa * (2 : ℚ) ^ exponent ↔
      i * twoTo (-exponent) < signedMantissa negative (mantissa * twoTo exponent) := by
  have positive : (0 : ℚ) < twoTo (-exponent) := Nat.cast_pos.mpr (twoTo_pos _)
  rw [← mul_lt_mul_iff_of_pos_right positive, value_mul_twoTo]
  exact_mod_cast Iff.rfl

theorem value_whole_iff :
    (∃ i : Int, signedMantissa negative mantissa * (2 : ℚ) ^ exponent = i) ↔ mantissa % twoTo (-exponent) = 0 := by
  constructor
  · rintro ⟨i, same⟩
    have scaled : (i : ℚ) * twoTo (-exponent) = (signedMantissa negative (mantissa * twoTo exponent) : ℤ) :=
      same ▸ value_mul_twoTo
    have whole : i * twoTo (-exponent) = signedMantissa negative (mantissa * twoTo exponent) := by exact_mod_cast scaled
    have parts := congrArg Int.natAbs whole
    rw [natAbs_signedMantissa, Int.natAbs_mul, Int.natAbs_natCast] at parts
    -- one of the two powers is one
    obtain ⟨k, rfl | rfl⟩ := exponent.eq_nat_or_neg
    · rw [twoTo_neg_natCast, Nat.mod_one]
    · rw [twoTo_neg_natCast, mul_one] at parts
      rw [← parts, Nat.mul_mod_left]
  · intro divides
    obtain ⟨quotient, rfl⟩ := Nat.dvd_of_mod_eq_zero divides
    refine ⟨signedMantissa negative quotient * twoTo exponent, ?_⟩
    rw [mul_comm (twoTo _), signedMantissa_mul]
    push_cast
    rw [mul_assoc, mul_comm (twoTo (-exponent) : ℚ), zpow_mul_twoTo]

theorem isWhole_iff {x : Binary64} : x.isWhole ↔ ∃ i : Int, x.value? = some (i : ℚ) := by
  cases x with
  | nan | infinite negative => simp [isWhole, value?]
  | finite negative mantissa exponent =>
    simp only [isWhole, value?, Option.some.injEq, value_whole_iff, beq_iff_eq]

theorem ltInt_iff {x : Binary64} {i : Int} : x.ltInt i ↔ x = infinite true ∨ ∃ q, x.value? = some q ∧ q < i := by
  cases x with
  | nan => simp [ltInt, value?]
  | infinite negative => simp [ltInt, value?]
  | finite negative mantissa exponent => simp [ltInt, value?, value_lt_iff]

theorem gtInt_iff {x : Binary64} {i : Int} : x.gtInt i ↔ x = infinite false ∨ ∃ q, x.value? = some q ∧ (i : ℚ) < q := by
  cases x with
  | nan => simp [gtInt, value?]
  | infinite negative => simp [gtInt, value?]
  | finite negative mantissa exponent => simp [gtInt, value?, lt_value_iff]

end Binary64

namespace Json

/-- The exact value of a finite number. Truth values are no numbers. -/
def number? : Json → Option ℚ
  | int i => some i
  | real x => x.value?
  | _ => none

/-- Whether a value is a number with no fraction, however it is written. -/
def Whole (v : Json) : Prop := ∃ i : Int, v.number? = some (i : ℚ)

/-- Whether a value is a number less than an integer, infinity being one. -/
def Below (v : Json) (bound : Int) : Prop := v = .real (.infinite true) ∨ ∃ q, v.number? = some q ∧ q < bound

/-- Whether a value is a number greater than an integer, infinity being one. -/
def Above (v : Json) (bound : Int) : Prop :=
  v = .real (.infinite false) ∨ ∃ q, v.number? = some q ∧ (bound : ℚ) < q

variable {v : Json} {bound : Int}

theorem admits_integer_iff : ValueType.integer.admits v ↔ v.Whole := by
  cases v with
  | int i => simp [ValueType.admits, Whole, number?]
  | real x => exact Binary64.isWhole_iff
  | null | bool _ | str _ | arr _ | obj _ => simp [ValueType.admits, Whole, number?]

theorem isBelow_iff : Schema.isBelow v bound ↔ v.Below bound := by
  cases v with
  | int i => simp [Schema.isBelow, Below, number?]
  | real x => simpa [Schema.isBelow, Below, number?] using Binary64.ltInt_iff
  | null | bool _ | str _ | arr _ | obj _ => simp [Schema.isBelow, Below, number?]

theorem isAbove_iff : Schema.isAbove v bound ↔ v.Above bound := by
  cases v with
  | int i => simp [Schema.isAbove, Above, number?]
  | real x => simpa [Schema.isAbove, Above, number?] using Binary64.gtInt_iff
  | null | bool _ | str _ | arr _ | obj _ => simp [Schema.isAbove, Above, number?]

instance : Decidable v.Whole := decidable_of_iff _ admits_integer_iff
instance : Decidable (v.Below bound) := decidable_of_iff _ isBelow_iff
instance : Decidable (v.Above bound) := decidable_of_iff _ isAbove_iff

/-- No number is on both sides of a range. -/
theorem not_below_and_above {least most : Int} (ordered : least ≤ most) (below : v.Below least) : ¬ v.Above most := by
  have apart : (least : ℚ) ≤ most := Int.cast_le.mpr ordered
  rintro (rfl | ⟨q, number, above⟩)
  · simp [Below, number?, Binary64.value?] at below
  · rcases below with rfl | ⟨r, same, under⟩
    · simp [number?, Binary64.value?] at number
    · obtain rfl := Option.some.inj (number.symm.trans same)
      exact lt_irrefl q (under.trans (apart.trans_lt above))

end Json

end PayloadSchema
