import PayloadSchema.Json.Basic
import PayloadSchema.Number.Notation
import PayloadSchema.Text.Quoted

/-!
Writing JSON on one line: a comma and a blank between items, a colon and a blank after a member name, and only
ASCII characters with a visible form. Any other character is written as its sixteen-bit units in hexadecimal.
-/
namespace PayloadSchema.Json

/-- A sixteen-bit unit as an escape. -/
def unitEscape (unit : Nat) : Text := .char '\\' :: .char 'u' :: Text.hexDigits 4 unit

/-- A character inside a string. -/
def writeChar (c : CodePoint) : Text :=
  if c = '"' ∨ c = '\\' then [.char '\\', c]
  else if c = '\n' then [.char '\\', .char 'n']
  else if c = '\r' then [.char '\\', .char 'r']
  else if c = '\t' then [.char '\\', .char 't']
  else if c = '\x08' then [.char '\\', .char 'b']
  else if c = '\x0c' then [.char '\\', .char 'f']
  else if 0x20 ≤ c.toNat ∧ c.toNat < 0x7F then [c]
  else c.units.flatMap unitEscape

def writeString (s : Text) : Text := .char '"' :: s.flatMap writeChar ++ [.char '"']

/-- A number that may be none of the finite ones. -/
def writeReal : Binary64 → Text
  | .nan => "NaN"
  | .infinite false => "Infinity"
  | .infinite true => "-Infinity"
  | x => x.write

mutual

def write : Json → Text
  | null => "null"
  | bool b => if b then "true" else "false"
  | int i => Numeral.integer i
  | real x => writeReal x
  | str s => writeString s
  | arr items => .char '[' :: writeItems items ++ [.char ']']
  | obj members => .char '\x7b' :: writeMembers members ++ [.char '\x7d']
termination_by structural v => v

/-- The items of an array. -/
def writeItems : List Json → Text
  | [] => []
  | [v] => write v
  | v :: rest => write v ++ .char ',' :: .char ' ' :: writeItems rest
termination_by structural items => items

/-- The members of an object. -/
def writeMembers : List (Text × Json) → Text
  | [] => []
  | [(name, v)] => writeString name ++ .char ':' :: .char ' ' :: write v
  | (name, v) :: rest =>
    writeString name ++ .char ':' :: .char ' ' :: write v ++ .char ',' :: .char ' ' :: writeMembers rest
termination_by structural members => members

end

end PayloadSchema.Json
