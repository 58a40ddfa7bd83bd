import PayloadSchema.Json.Basic
import PayloadSchema.Number.Numeral

/-!
The tokens of JSON text. Between tokens stand spaces, tabs, line feeds and carriage returns. Besides the three
words of the format, `NaN`, `Infinity` and `-Infinity` are tokens. Text that starts no token becomes the token
`bad`, which ends the list: what comes before it keeps its meaning, so the first fault of a text is found at
its place.
-/
namespace PayloadSchema.Json

/-- A number as it stands in the text. -/
structure Numerical where
  negative : Bool
  whole : Text
  /-- The digits after the point; empty where there is no point. -/
  fraction : Text
  /-- The power of ten, if one is given. -/
  power : Option Int
deriving DecidableEq, Repr

inductive Token where
  | openArray
  | closeArray
  | openObject
  | closeObject
  | comma
  | colon
  /-- A value that is one word. -/
  | word (value : Json)
  | number (n : Numerical)
  | text (cs : Text)
  | bad
deriving Repr

namespace Token

def isSpace (c : CodePoint) : Bool := c = ' ' || c = '\t' || c = '\n' || c = '\r'

/-- The text after a given beginning. -/
def after? : (beginning : Text) → Text → Option Text
  | [], cs => some cs
  | b :: beginning, c :: cs => if b = c then after? beginning cs else none
  | _ :: _, [] => none

/-- The value of a hexadecimal digit. -/
def hexValue? (c : CodePoint) : Option Nat :=
  if '0' ≤ c ∧ c ≤ '9' then some (c.toNat - '0'.toNat)
  else if 'a' ≤ c ∧ c ≤ 'f' then some (c.toNat - 'a'.toNat + 10)
  else if 'A' ≤ c ∧ c ≤ 'F' then some (c.toNat - 'A'.toNat + 10)
  else none

/-- The character that a letter stands for after a backslash. -/
def escaped? (c : CodePoint) : Option CodePoint :=
  if c = '"' ∨ c = '\\' ∨ c = '/' then some c
  else if c = 'b' then some '\x08'
  else if c = 'f' then some '\x0c'
  else if c = 'n' then some '\n'
  else if c = 'r' then some '\r'
  else if c = 't' then some '\t'
  else none

/-- What stands in a string for a code point, or for half of one. -/
inductive Piece where
  | plain (c : CodePoint)
  /-- A sixteen-bit unit in hexadecimal. -/
  | unit (code : Nat)
deriving Repr

/-- Reads the rest of a string up to its closing quote. -/
def readPieces : Text → Option (List Piece × Text)
  | [] => none
  | c :: rest =>
    if c = '"' then some ([], rest)
    else if c = '\\' then
      match rest with
      | 'u' :: h₁ :: h₂ :: h₃ :: h₄ :: rest => do
        let code := 4096 * (← hexValue? h₁) + 256 * (← hexValue? h₂) + 16 * (← hexValue? h₃) + (← hexValue? h₄)
        let (pieces, rest) ← readPieces rest
        return (.unit code :: pieces, rest)
      | e :: rest => do
        let c ← escaped? e
        let (pieces, rest) ← readPieces rest
        return (.plain c :: pieces, rest)
      | [] => none
    else if c.toNat < 0x20 then none
    else do
      let (pieces, rest) ← readPieces rest
      return (.plain c :: pieces, rest)

/-- The code points of the pieces. A unit that is a high surrogate and one behind it that is a low surrogate make one
code point together; any other unit is a code point by itself. -/
def join : List Piece → Text
  | [] => []
  | .plain c :: rest => c :: join rest
  | .unit high :: .unit low :: rest =>
    if CodePoint.isHighSurrogate high && CodePoint.isLowSurrogate low then .joined high low :: join rest
    else .ofNat high :: join (.unit low :: rest)
  | .unit code :: rest => .ofNat code :: join rest

/-- Reads the digits that stand at the start of a text. -/
def readDigits (cs : Text) : Text × Text :=
  (cs.takeWhile CodePoint.isDigit, cs.dropWhile CodePoint.isDigit)

/-- Reads the whole part of a number: a zero, or digits of which the first is not zero. -/
def readWhole : Text → Option (Text × Text)
  | '0' :: rest => some (['0'], rest)
  | cs => match readDigits cs with
    | ([], _) => none
    | found => some found

/-- Reads a point with digits behind it. A point without digits is no part of the number. -/
def readFraction : Text → Text × Text
  | '.' :: rest => match readDigits rest with
    | ([], _) => ([], '.' :: rest)
    | found => found
  | cs => ([], cs)

/-- Reads a power of ten. A mark without digits is no part of the number. -/
def readPower : Text → Option Int × Text
  | mark :: rest =>
    if mark = 'e' ∨ mark = 'E' then
      let (negative, body) := Numeral.splitSign rest
      match readDigits body with
      | ([], _) => (none, mark :: rest)
      | (digits, after) => (some (Numeral.signed negative (Numeral.valueOf digits)), after)
    else (none, mark :: rest)
  | [] => (none, [])

/-- Reads a number behind its sign. -/
def readNumber (negative : Bool) (cs : Text) : Option (Token × Text) := do
  let (whole, rest) ← readWhole cs
  let (fraction, rest) := readFraction rest
  let (power, rest) := readPower rest
  return (.number ⟨negative, whole, fraction, power⟩, rest)

/-- Reads a word that stands for a value. -/
def readWord (word : Text) (value : Json) (cs : Text) : Option (Token × Text) :=
  (after? word cs).map fun rest => (.word value, rest)

/-- Reads one token from a text that starts with the character `c`. -/
def next (c : CodePoint) (rest : Text) : Option (Token × Text) :=
  if c = '[' then some (.openArray, rest)
  else if c = ']' then some (.closeArray, rest)
  else if c = '\x7b' then some (.openObject, rest)
  else if c = '\x7d' then some (.closeObject, rest)
  else if c = ',' then some (.comma, rest)
  else if c = ':' then some (.colon, rest)
  else if c = '"' then (readPieces rest).map fun (pieces, rest) => (.text (join pieces), rest)
  else if c = 'n' then readWord "ull" .null rest
  else if c = 't' then readWord "rue" (.bool true) rest
  else if c = 'f' then readWord "alse" (.bool false) rest
  else if c = 'N' then readWord "aN" (.real .nan) rest
  else if c = 'I' then readWord "nfinity" (.real (.infinite false)) rest
  else if c = '-' then
    (readWord "Infinity" (.real (.infinite true)) rest).or (readNumber true rest)
  else readNumber false (c :: rest)

/-- The tokens of a text. Every step takes a character, so as many steps as there are characters suffice. -/
def scanSteps : (steps : Nat) → Text → List Token
  | 0, _ => []
  | steps + 1, cs =>
    match cs.dropWhile isSpace with
    | [] => []
    | c :: rest =>
      match next c rest with
      | some (token, rest) => token :: scanSteps steps rest
      | none => [.bad]

def scan (cs : Text) : List Token := scanSteps cs.length cs

end Token

end PayloadSchema.Json
