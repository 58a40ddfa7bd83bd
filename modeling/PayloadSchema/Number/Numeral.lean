import PayloadSchema.Text.Classes

/-!
Whole numbers as text. Writing is plain decimal. Reading takes what people type: white space around the
number, a sign, digits of any script, and single underscores between digits. Numerals of more than
`digitLimit` digits are refused, leading zeros counted, because reading them takes quadratic time. So does writing,
and numbers of more digits are not written either.
-/
namespace PayloadSchema

namespace Numeral

/-- The decimal digits of a natural number, without leading zeros. -/
def natural (n : Nat) : Text := (Nat.toDigits 10 n).map .char

/-- The decimal text of an integer. -/
def integer (i : Int) : Text :=
  if i < 0 then '-' :: natural i.natAbs else natural i.natAbs

/-- The number that a sequence of decimal digits stands for. -/
def value (digits : List Nat) : Nat := digits.foldl (fun n d => 10 * n + d) 0

/-- The number that a sequence of ASCII digits stands for. -/
def valueOf (digits : Text) : Nat := value (digits.map fun c => c.toNat - '0'.toNat)

def signed (negative : Bool) (n : Nat) : Int := if negative then -(n : Int) else n

/-- The largest number of digits that a numeral may have. -/
def digitLimit : Nat := 4300

/-- Whether a number may be written. -/
def isWritable (i : Int) : Bool := (natural i.natAbs).length ≤ digitLimit

/-- What is said where a number that may not be written would be. -/
def unwritable : Text :=
  "Exceeds the limit (" ++ toString digitLimit
    ++ " digits) for integer string conversion; use sys.set_int_max_str_digits() to increase the limit"

/-- Why a text is not read as a whole number. -/
inductive Fault where
  | malformed
  | tooLong (digits : Nat)
deriving DecidableEq, Repr

/-- White space that may surround a numeral. The four separator controls may not. -/
def isPadding (c : CodePoint) : Bool :=
  Text.isBlank c && !(0x1C ≤ c.toNat && c.toNat ≤ 0x1F)

/-- Splits a sign off a numeral; the answer says whether the sign is a minus. -/
def splitSign : Text → Bool × Text
  | '+' :: rest => (false, rest)
  | '-' :: rest => (true, rest)
  | cs => (false, cs)

/-- Reads the longest run of digits and underscores. The digits come last first, the flag tells whether an
underscore was read last, and no answer means that two underscores stand together. -/
def readRun (digits : List Nat) (underscore : Bool) : Text → Option (List Nat × Bool × Text)
  | [] => some (digits, underscore, [])
  | c :: rest =>
    if c = '_' then
      if underscore then none else readRun digits true rest
    else match Text.DecimalDigit.value? c with
      | some d => readRun (d :: digits) false rest
      | none => some (digits, underscore, c :: rest)

/-- Reads a whole number. A run of digits that is too long is reported even where other text follows it. -/
def read (text : Text) : Except Fault Int :=
  let (negative, body) := splitSign (Text.trimBy isPadding text)
  match readRun [] true body with
  | none => .error .malformed
  | some (digits, underscore, rest) =>
    if digits.isEmpty || underscore then .error .malformed
    else if digits.length > digitLimit then .error (.tooLong digits.length)
    else if rest.isEmpty then .ok (signed negative (value digits.reverse))
    else .error .malformed

/-- Underscores stand between digits only. -/
example : (read " +1_0\n").toOption = some 10 ∧ (read "1__0").toOption = none ∧
    (read "1_").toOption = none ∧ (read "_1").toOption = none := by decide +kernel

end Numeral

end PayloadSchema
