/-!
Binary64 numbers as exact values. A finite number is a sign, a whole mantissa and an exponent of two, so that
comparison with integers, truncation and the test for whole numbers need no rounding. `ofRatio` and
`ofDecimal` round to the nearest number, and to the one with the even mantissa when two are equally near.
-/
namespace PayloadSchema

/-- A binary64 value. A finite one is `mantissa * 2 ^ exponent`, negated when the flag is set; in the values
that `ofRatio` makes the mantissa has 53 bits, or the exponent is the least one. -/
inductive Binary64 where
  | nan
  | infinite (negative : Bool)
  | finite (negative : Bool) (mantissa : Nat) (exponent : Int)
deriving DecidableEq, Repr

namespace Binary64

/-- Two to an exponent; one for exponents below zero. A number times any power of two is the ratio of the number
times `twoTo exponent` and of `twoTo (-exponent)`. -/
def twoTo (exponent : Int) : Nat := Nat.pow 2 exponent.toNat

/-- Ten to an exponent; one for exponents below zero. -/
def tenTo (exponent : Int) : Nat := Nat.pow 10 exponent.toNat

/-- The exponent of the numbers next to zero. -/
def leastExponent : Int := -1074

/-- The exponent of the largest finite numbers. -/
def greatestExponent : Int := 971

/-- One more than the largest mantissa. -/
def mantissaBound : Nat := twoTo 53

/-- `num / den` rounded to a whole number, a half to the even neighbour. -/
def roundHalfEven (num den : Nat) : Nat :=
  let quotient := num / den
  let twice := 2 * (num % den)
  if twice < den then quotient
  else if den < twice then quotient + 1
  else if quotient % 2 = 0 then quotient else quotient + 1

/-- The exponent of the leading bit of `num / den`, for positive numbers. -/
def leadingBit (num den : Nat) : Int :=
  let guess : Int := (num.log2 : Int) - den.log2
  -- `num / den` lies strictly between `2 ^ (guess - 1)` and `2 ^ (guess + 1)`
  if num * twoTo (-guess) < den * twoTo guess then guess - 1 else guess

/-- The binary64 number nearest to the ratio of two natural numbers, `den` not zero. -/
def ofRatio (negative : Bool) (num den : Nat) : Binary64 :=
  if num = 0 then finite negative 0 leastExponent
  else
    let exponent := max (leadingBit num den - 52) leastExponent
    let mantissa := roundHalfEven (num * twoTo (-exponent)) (den * twoTo exponent)
    let (mantissa, exponent) :=
      if mantissa = mantissaBound then (mantissaBound / 2, exponent + 1) else (mantissa, exponent)
    if exponent > greatestExponent then infinite negative else finite negative mantissa exponent

/-- The binary64 number nearest to `digits * 10 ^ power`. Magnitudes of `10 ^ 309` and more are infinite and
those below `10 ^ -324` are zero whatever the digits are, so no large power is ever formed. -/
def ofDecimal (negative : Bool) (digits : Nat) (power : Int) : Binary64 :=
  let width : Int := (Nat.toDigits 10 digits).length
  if digits = 0 then finite negative 0 leastExponent
  else if width + power > 309 then infinite negative
  else if width + power < -323 then finite negative 0 leastExponent
  else ofRatio negative (digits * tenTo power) (tenTo (-power))

/-- The mantissa with its sign. -/
def signedMantissa (negative : Bool) (mantissa : Nat) : Int :=
  if negative then -(mantissa : Int) else mantissa

/-- Whether the number is a whole number. -/
def isWhole : Binary64 → Bool
  | nan | infinite _ => false
  | finite _ mantissa exponent => mantissa % twoTo (-exponent) == 0

/-- The whole number next to a finite one on the side of zero. -/
def truncate? : Binary64 → Option Int
  | nan | infinite _ => none
  | finite negative mantissa exponent =>
    some (signedMantissa negative (mantissa * twoTo exponent / twoTo (-exponent)))

/-- Whether the number is less than an integer. Nothing is less or greater than a value that is no number. -/
def ltInt : Binary64 → Int → Bool
  | nan, _ => false
  | infinite negative, _ => negative
  | finite negative mantissa exponent, i =>
    signedMantissa negative (mantissa * twoTo exponent) < i * twoTo (-exponent)

/-- Whether the number is greater than an integer. -/
def gtInt : Binary64 → Int → Bool
  | nan, _ => false
  | infinite negative, _ => !negative
  | finite negative mantissa exponent, i =>
    i * twoTo (-exponent) < signedMantissa negative (mantissa * twoTo exponent)

/-- Whether the number is equal to an integer. -/
def isInt (x : Binary64) (i : Int) : Bool :=
  match x.truncate? with
  | some j => x.isWhole && j = i
  | none => false

/-- Whether the number is zero of either sign. -/
def isZero : Binary64 → Bool
  | finite _ mantissa _ => mantissa == 0
  | _ => false

/-- Rounding carries into the next power of two, and beyond the largest one to infinity. -/
example : ofDecimal false 9007199254740993 0 = finite false 4503599627370496 1 ∧
    ofDecimal false 17976931348623159 292 = infinite false := by decide +kernel

end Binary64

end PayloadSchema
