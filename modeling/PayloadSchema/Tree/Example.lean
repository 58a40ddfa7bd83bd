import PayloadSchema.Json.Writer
import PayloadSchema.Tree.Basic

/-!
Example documents: an object has a member for every child, an array as many copies of its element as its size
says, and a primitive node stands for the example value of its type. The root itself is not named; a message
carries the document under `value`.
-/
namespace PayloadSchema

namespace Branch

mutual

/-- The example value of a branch. -/
def exampleValue : Branch → Json
  | mk node children =>
    match node.kind with
    | .object => .obj (Assoc.ofPairs (exampleMembers children))
    | .array => .arr (exampleItems node.size.toNat children)
    | kind => kind.example?.getD .null
termination_by structural b => b

def exampleMembers : List Branch → List (Text × Json)
  | [] => []
  | b :: rest => (b.name, exampleValue b) :: exampleMembers rest
termination_by structural bs => bs

/-- As many copies of the first branch's example. -/
def exampleItems (copies : Nat) : List Branch → List Json
  | [] => []
  | b :: _ => List.replicate copies (exampleValue b)
termination_by structural bs => bs

end

end Branch

namespace SchemaTree

/-- The example document of a tree. -/
def exampleDocument (t : SchemaTree) : Json :=
  .obj (Assoc.ofPairs (Branch.exampleMembers t.trunk.children))

/-- The example message of a tree. -/
def exampleMessage (t : SchemaTree) : Text := (Json.obj [("value", t.exampleDocument)]).write

end SchemaTree

end PayloadSchema
