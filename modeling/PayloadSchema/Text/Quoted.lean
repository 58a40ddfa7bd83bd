import PayloadSchema.Text.Classes

/-!
Quoted text, as names and values stand in messages. The quote is the apostrophe, unless the text holds
apostrophes and no double quote. The backslash and the chosen quote are escaped by a backslash; line feed,
carriage return and tab have short escapes, every other character without a visible form a numeric one of
two, four or eight hexadecimal digits.
-/
namespace PayloadSchema.Text

/-- The hexadecimal digit of a number below sixteen, with small letters. -/
def hexDigit (n : Nat) : CodePoint :=
  .char (if n < 10 then Char.ofNat (0x30 + n) else Char.ofNat (0x57 + n))

/-- The last `width` hexadecimal digits of a number, padded with zeros on the left. -/
def hexDigits : (width : Nat) → Nat → Text
  | 0, _ => []
  | width + 1, n => hexDigits width (n / 16) ++ [hexDigit (n % 16)]

/-- The quote around a text. -/
def quoteFor (cs : Text) : CodePoint :=
  if cs.contains '\'' && !cs.contains '"' then '"' else '\''

/-- A character as it stands between the quotes `quote`. -/
def quoteChar (quote c : CodePoint) : Text :=
  if c = quote ∨ c = '\\' then [.char '\\', c]
  else if c = '\n' then [.char '\\', .char 'n']
  else if c = '\r' then [.char '\\', .char 'r']
  else if c = '\t' then [.char '\\', .char 't']
  else if isPrintable c then [c]
  else if c.toNat < 0x100 then .char '\\' :: .char 'x' :: hexDigits 2 c.toNat
  else if c.toNat < 0x10000 then .char '\\' :: .char 'u' :: hexDigits 4 c.toNat
  else .char '\\' :: .char 'U' :: hexDigits 8 c.toNat

/-- A text between quotes. -/
def quoted (cs : Text) : Text :=
  let quote := quoteFor cs
  quote :: cs.flatMap (quoteChar quote) ++ [quote]

/-- An apostrophe alone turns the quotes round; beside a double quote it is escaped. -/
example : quoted "i'" = Text.ofString "\"i'\"" ∧ quoted "'\"" = Text.ofString "'\\'\"'" := by decide

/-! Tuples stand in messages as their items between parentheses, with a comma behind a single item. -/

/-- Items with a comma and a blank between them. -/
def commaSeparated : List Text → Text
  | [] => []
  | [item] => item
  | item :: rest => item ++ ", " ++ commaSeparated rest

/-- A tuple of items that are already text. -/
def tuple : List Text → Text
  | [item] => "(" ++ item ++ ",)"
  | items => "(" ++ commaSeparated items ++ ")"

end PayloadSchema.Text
