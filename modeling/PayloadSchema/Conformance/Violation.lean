import PayloadSchema.Conformance.Schema
import PayloadSchema.Json.Literal

/-!
Violations: what is wrong with a value of a document, and where the value stands.
-/
namespace PayloadSchema

/-- A step from the whole document towards one of its values. -/
inductive Spot where
  | member (name : Text)
  | item (i : Nat)
deriving DecidableEq, Repr

/-- What is wrong with a value. -/
inductive Breach where
  | type (v : Json) (wanted : ValueType)
  | missing (name : Text)
  | unexpected (names : List Text)
  | tooShort (v : Json) (least : Int)
  | tooLong (v : Json)
  | belowMinimum (v : Json) (least : Int)
  | aboveMaximum (v : Json) (most : Int)
deriving Repr

structure Violation where
  /-- The way from the document to the value. -/
  place : List Spot
  breach : Breach
deriving Repr

namespace Spot

def isAsciiLetter (c : CodePoint) : Bool := ('a' ≤ c && c ≤ 'z') || ('A' ≤ c && c ≤ 'Z')

def isWordChar (c : CodePoint) : Bool := isAsciiLetter c || c.isDigit || c = '_'

/-- Whether a member can be named behind a point: by a letter and then letters, digits and underscores. A line
feed at the end of the name is overlooked. -/
def isPlain (name : Text) : Bool :=
  match name with
  | [] => false
  | c :: rest =>
    let rest := if rest.getLast? = some '\n' then rest.dropLast else rest
    isAsciiLetter c && rest.all isWordChar

def render : Spot → Text
  | item i => "[" ++ Numeral.natural i ++ "]"
  | member name =>
    if isPlain name then "." ++ name else "['" ++ name.flatMap Segment.escape ++ "']"

end Spot

namespace Breach

/-- The names of members between quotes. -/
def quotedNames (names : List Text) : Text :=
  Text.commaSeparated (names.map Text.quoted)

def message : Breach → Text
  | type v wanted => v.literal ++ " is not of type " ++ Text.quoted wanted.label
  | missing name => Text.quoted name ++ " is a required property"
  | unexpected names =>
    "Additional properties are not allowed (" ++ quotedNames names
      ++ (if names.length = 1 then " was" else " were") ++ " unexpected)"
  | tooShort v least =>
    v.literal ++ (if least = 1 then " should be non-empty" else " is too short")
  | tooLong v => v.literal ++ " is too long"
  | belowMinimum v least => v.literal ++ " is less than the minimum of " ++ Numeral.integer least
  | aboveMaximum v most => v.literal ++ " is greater than the maximum of " ++ Numeral.integer most

end Breach

namespace Violation

/-- The text of a place: the document itself is `$`. -/
def placeText (place : List Spot) : Text := "$" ++ place.flatMap Spot.render

/-- What is wrong with a part of a value is wrong with the value, further down. -/
def under (place : List Spot) (v : Violation) : Violation := ⟨place ++ v.place, v.breach⟩

def message (v : Violation) : Text := placeText v.place ++ ": " ++ v.breach.message

end Violation

end PayloadSchema
