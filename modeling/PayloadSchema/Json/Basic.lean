import PayloadSchema.Assoc
import PayloadSchema.Number.Binary64
import PayloadSchema.Text.CodePoint

/-!
JSON values. Whole numbers and numbers with a fraction or an exponent are kept apart, and an object keeps its
members in the order in which their names first came.
-/
namespace PayloadSchema

/-- A JSON value. -/
inductive Json where
  | null
  | bool (b : Bool)
  | int (i : Int)
  | real (x : Binary64)
  | str (s : Text)
  | arr (items : List Json)
  | obj (members : List (Text × Json))
deriving Repr

namespace Json

/-- The kinds of values that messages tell apart. -/
inductive Kind where
  | null | bool | int | real | str | arr | obj
deriving DecidableEq, Repr

def kind : Json → Kind
  | null => .null
  | bool _ => .bool
  | int _ => .int
  | real _ => .real
  | str _ => .str
  | arr _ => .arr
  | obj _ => .obj

/-- The name of a kind in messages. -/
def Kind.label : Kind → Text
  | .null => "NoneType"
  | .bool => "bool"
  | .int => "int"
  | .real => "float"
  | .str => "str"
  | .arr => "list"
  | .obj => "dict"

/-- What is said of a value that has no items to go through. -/
def Kind.noItems (k : Kind) : Text := "'" ++ k.label ++ "' object is not iterable"

/-- What is said of a value that cannot be compared with a whole number. -/
def Kind.noOrder (k : Kind) : Text := "'<' not supported between instances of '" ++ k.label ++ "' and 'int'"

/-- The member of an object; other values have none. -/
def get? (v : Json) (name : Text) : Option Json :=
  match v with
  | obj members => Assoc.get? members name
  | _ => none

/-- Whether a value counts as yes: everything does but nothing, no, zero and what is empty. -/
def isTruthy : Json → Bool
  | null => false
  | bool b => b
  | int i => i != 0
  | real x => !x.isZero
  | str s => !s.isEmpty
  | arr items => !items.isEmpty
  | obj members => !members.isEmpty

end Json

end PayloadSchema
