import PayloadSchema.Json.Literal

/-!
Node descriptors: a schema arrives as a flat list of them, each naming its parent and its children.
-/
namespace PayloadSchema

/-- One node of a schema before it is linked to others. -/
structure Descriptor where
  name : Text
  /-- The name of the node's type, as it was given. -/
  type : Text
  /-- The name of the parent; empty for the root. -/
  parent : Text := ""
  /-- The names of the children, in order. A list that was not given counts as empty. -/
  children : Option (List Text) := some []
  /-- The number of elements of an array. -/
  size : Int := -1
  unit : Text := ""
  description : Text := ""
deriving DecidableEq, Repr

namespace Descriptor

/-- The size of every node that is no array. -/
def unsetSize : Int := -1

def hasParent (d : Descriptor) : Bool := !d.parent.isEmpty

def childNames (d : Descriptor) : List Text := d.children.getD []

/-- The object form of a descriptor. -/
def toJson (d : Descriptor) : Json :=
  .obj [("name", .str d.name), ("type", .str d.type), ("parent", .str d.parent),
    ("children", .arr (d.childNames.map .str)), ("size", .int d.size), ("unit", .str d.unit),
    ("description", .str d.description)]

end Descriptor

end PayloadSchema
