import PayloadSchema.Conformance.Validator

/-!
Checking documents: a message is unwrapped, and what is inside is checked against the schema of the tree.
-/
namespace PayloadSchema

namespace SchemaTree

/-- The document inside a message: the value of its only member `value`, unless the root has a child of that
name. Anything else is a document already. -/
def unwrap (t : SchemaTree) (v : Json) : Json :=
  match v with
  | .obj [(name, inner)] =>
    if name = "value" && !(t.trunk.children.map (·.name)).contains ("value" : Text) then inner else v
  | _ => v

/-- What a validator finds wrong with a document or message. -/
def check (t : SchemaTree) (V : Validator) (v : Json) : List Violation := V.errors t.schema (t.unwrap v)

/-- What is said of a document that does not conform; nothing of one that does. -/
def complaint? (t : SchemaTree) (V : Validator) (v : Json) : Option Text :=
  match t.check V v with
  | [] => none
  | problems =>
    some ("Document does not conform to schema " ++ Text.quoted t.root.name ++ ":\n"
      ++ List.intercalate ("\n" : Text) (problems.map fun p => "  " ++ p.message)
      ++ "\n  document: " ++ v.display)

end SchemaTree

end PayloadSchema
