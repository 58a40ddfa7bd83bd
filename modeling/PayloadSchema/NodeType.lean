import PayloadSchema.Json.Basic
import PayloadSchema.Text.Lowercase

/-!
The catalog of node types: two that hold other nodes, and the primitive ones that stand for a single value.
Type names are matched without regard to letter case and surrounding white space. Every primitive type has an
example value.
-/
namespace PayloadSchema

inductive NodeType where
  | object | array
  | string | double | int | long | decimal128 | boolean | date | binary
deriving DecidableEq, Repr

namespace NodeType

/-- All types, in the order in which they sort. -/
def all : List NodeType :=
  [object, array, string, double, int, long, decimal128, boolean, date, binary]

def label : NodeType → Text
  | object => "object"
  | array => "array"
  | string => "string"
  | double => "double"
  | int => "int"
  | long => "long"
  | decimal128 => "decimal128"
  | boolean => "boolean"
  | date => "date"
  | binary => "binary"

/-- The place of a type in the order. -/
def rank (t : NodeType) : Nat := all.idxOf t

/-- The type with exactly this label. -/
def ofLabel? (name : Text) : Option NodeType := all.find? fun t => t.label = name

/-- The type that a name means. -/
def lookup (name : Text) : Option NodeType :=
  ofLabel? (Text.lowercase (Text.trim name))

/-- The type that a value means. An empty value of any kind means none; one that is no text cannot be read. -/
def ofJson : Json → Except Json.Kind (Option NodeType)
  | .str s => .ok (lookup s)
  | v => if v.isTruthy then .error v.kind else .ok none

/-- What is said of a value that cannot be read as the name of a type. -/
def notReadable (k : Json.Kind) : Text := "'" ++ k.label ++ "' object has no attribute 'strip'"

def isPrimitive (t : NodeType) : Bool := t ≠ object && t ≠ array

/-- The example value of a primitive type. -/
def example? : NodeType → Option Json
  | object | array => none
  | string => some (.str "example")
  | double => some (.real (.ofDecimal false 245 (-1)))
  | int => some (.int 42)
  | long => some (.int 1700000000000)
  | decimal128 => some (.real (.ofDecimal false 12345678 (-4)))
  | boolean => some (.bool true)
  | date => some (.str "2024-01-01T12:00:00Z")
  | binary => some (.str "ZXhhbXBsZQ==")

/-- What is said when an example is wanted of a type that has none. -/
def noExample (t : NodeType) : Text := t.label ++ " has no scalar example value"

theorem example?_isSome (t : NodeType) : t.example?.isSome = t.isPrimitive := by
  cases t <;> rfl

theorem ofLabel?_label (t : NodeType) : ofLabel? t.label = some t := by
  cases t <;> decide

/-- Every type is in the list. -/
theorem mem_all (t : NodeType) : t ∈ all := by
  cases t <;> decide

end NodeType

end PayloadSchema
