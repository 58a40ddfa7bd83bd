import PayloadSchema.Number.Numeral
import PayloadSchema.Number.Shortest

/-!
How a binary64 number is written in documents and messages: the fewest digits that read back, positional for
magnitudes from `10 ^ -4` up to `10 ^ 16`, with an exponent otherwise. A whole number in positional form keeps
one zero after the point, so that it reads back as a number with a fraction; an exponent has a sign and at
least two digits.
-/
namespace PayloadSchema.Binary64

/-- The exponents of ten, of the leading digit, between which a number is written positionally. -/
structure Positional where
  least : Int
  bound : Int

/-- Numbers are positional from `0.0001` and below `10 ^ 16`. -/
def positional : Positional := ⟨-4, 16⟩

/-- The digits of an exponent, at least two. -/
def exponentDigits (n : Nat) : Text :=
  if n < 10 then '0' :: Numeral.natural n else Numeral.natural n

/-- `digits * 10 ^ power` in positional form. -/
def positionalText (digits : Text) (power : Int) : Text :=
  if 0 ≤ power then digits ++ (List.replicate power.toNat '0' : Text) ++ (['.', '0'] : Text)
  else
    let places := (-power).toNat
    if places < digits.length then
      digits.take (digits.length - places) ++ ('.' :: digits.drop (digits.length - places) : Text)
    else ('0' :: '.' :: List.replicate (places - digits.length) '0' : Text) ++ digits

/-- `digits * 10 ^ power` with an exponent, where `leading` is the exponent of the first digit. -/
def exponentText (digits : Text) (leading : Int) : Text :=
  let fraction : Text := match digits.drop 1 with
    | [] => []
    | rest => '.' :: rest
  digits.take 1 ++ fraction ++ ('e' :: (if leading < 0 then '-' else '+') :: exponentDigits leading.natAbs : Text)

/-- The text of a magnitude. -/
def magnitudeText (mantissa : Nat) (exponent : Int) : Text :=
  if mantissa = 0 then ['0', '.', '0']
  else
    let (digits, power) := Shortest.decimal mantissa exponent
    let digits := Numeral.natural digits
    let leading := power + digits.length - 1
    if positional.least ≤ leading ∧ leading < positional.bound then positionalText digits power
    else exponentText digits leading

/-- The text of a number. -/
def write : Binary64 → Text
  | nan => "nan"
  | infinite false => "inf"
  | infinite true => "-inf"
  | finite false mantissa exponent => magnitudeText mantissa exponent
  | finite true mantissa exponent => '-' :: magnitudeText mantissa exponent

/-- The positional form ends at the sixteenth power of ten and at the fourth place. -/
example : write (ofDecimal false 1 15) = "1000000000000000.0" ∧
    write (ofDecimal false 1 16) = "1e+16" ∧
    write (ofDecimal true 1 (-4)) = "-0.0001" ∧
    write (ofDecimal false 15 (-6)) = "1.5e-05" := by decide +kernel

end PayloadSchema.Binary64
