import PayloadSchema.Json.Literal
import PayloadSchema.Text.Quoted

/-!
Paths: the way from the root of a schema to one of its nodes. A child of an object is a field, the element of
an array stands for all its elements at once. As text, fields are joined by points; a name that has a point, a
bracket or an apostrophe in it is written between brackets and apostrophes, with the backslashes and
apostrophes in it escaped. An element is `[*]`, and `[7]` once an index is chosen.
-/
namespace PayloadSchema

/-- One step of a path. -/
inductive Segment where
  /-- A member of an object. -/
  | field (name : Text)
  /-- Every element of an array. -/
  | each
  /-- One element of an array. -/
  | index (i : Int)
deriving DecidableEq, Repr

/-- A path from the root; the root's own path has no segments. -/
structure Path where
  segments : List Segment := []
deriving DecidableEq, Repr

namespace Segment

/-- Characters that force a name between brackets. -/
def isSpecial (c : CodePoint) : Bool := c = '.' || c = '[' || c = ']' || c = '\''

/-- A character of a name between brackets. -/
def escape (c : CodePoint) : Text := if c = '\\' ∨ c = '\'' then [.char '\\', c] else [c]

/-- The text of a segment, where `started` says whether there is text before it. -/
def render (started : Bool) : Segment → Text
  | each => [.char '[', .char '*', .char ']']
  | index i => .char '[' :: Numeral.integer i ++ [.char ']']
  | field name =>
    if name.any isSpecial then .char '[' :: .char '\'' :: name.flatMap escape ++ [.char '\'', .char ']']
    else if started then .char '.' :: name
    else name

/-- A segment as messages show it. -/
def literal : Segment → Text
  | field name => Text.quoted name
  | each => "None"
  | index i => Numeral.integer i

end Segment

namespace Path

/-- The text of some segments, where `started` says whether there is text before them. -/
def renderFrom (started : Bool) : List Segment → Text
  | [] => []
  | segment :: rest =>
    let part := segment.render started
    part ++ renderFrom (started || !part.isEmpty) rest

/-- The text of a path. -/
def text (path : Path) : Text := renderFrom false path.segments

/-- The path of a named child of an object at this path. -/
def child (path : Path) (name : Text) : Path := ⟨path.segments ++ [.field name]⟩

/-- The path of the element of an array at this path. -/
def element (path : Path) : Path := ⟨path.segments ++ [.each]⟩

/-- The number of array levels without a chosen index. -/
def wildcardCount (path : Path) : Nat := path.segments.countP (· = .each)

/-- Why a path takes no indices. -/
inductive IndexError where
  /-- There are more or fewer indices than array levels. -/
  | wrongCount (path : Path) (given : Nat)
  /-- An index is below zero. -/
  | negative (shown : Text)
  /-- An index has too many digits to be written. -/
  | unwritable
  /-- An index is a value that has no place among the numbers. -/
  | notNumber (found : Json.Kind)
  /-- An index is a number with a fraction, or was given as one. -/
  | notWhole (found : Json.Kind)
deriving DecidableEq, Repr

def IndexError.message : IndexError → Text
  | wrongCount path given =>
    "Path " ++ Text.quoted path.text ++ " has " ++ toString path.wildcardCount ++ " array levels, got "
      ++ toString given ++ " indices"
  | negative shown => "Array indices must be >= 0, got " ++ shown
  | unwritable => Numeral.unwritable
  | notNumber found => found.noOrder
  | notWhole found => found.noItems

/-- Puts indices in the places of the array levels, the outermost first. -/
def fill : List Segment → List Int → List Segment
  | [], _ => []
  | .each :: rest, i :: indices => .index i :: fill rest indices
  | .each :: rest, [] => .each :: fill rest []
  | segment :: rest, indices => segment :: fill rest indices

/-- The path to one position of a document, given an index for each array level. Its text has the indices in it, as has
what is said of indices below zero. -/
def instantiate (path : Path) (indices : List Int) : Except IndexError Path :=
  if indices.length ≠ path.wildcardCount then .error (.wrongCount path indices.length)
  else if indices.any (!Numeral.isWritable ·) then .error .unwritable
  else if indices.any (· < 0) then .error (.negative (Text.tuple (indices.map Numeral.integer)))
  else .ok ⟨fill path.segments indices⟩

/-- A path as messages show it. -/
def literal (path : Path) : Text :=
  "SchemaPath(segments=" ++ Text.tuple (path.segments.map Segment.literal) ++ ", path="
    ++ Text.quoted path.text ++ ")"

end Path

end PayloadSchema
