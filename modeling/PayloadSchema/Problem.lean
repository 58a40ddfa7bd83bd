import PayloadSchema.Json.Amount

/-!
The problems a schema can have, and the stages of building at which they are looked for. A stage reports all
its problems, and a later stage is only reached when the one before found none.
-/
namespace PayloadSchema

/-- The stages of building a tree, in order. -/
inductive Stage where
  /-- Each descriptor on its own. -/
  | nodes
  /-- All descriptors together. -/
  | collection
  /-- The links between descriptors. -/
  | links
  /-- The walk from the root. -/
  | walk
  /-- The number of levels. -/
  | depth
deriving DecidableEq, Repr

/-- Something that keeps a schema from being a tree. -/
inductive Problem where
  | unnamed
  | untyped
  | unknownType (type : Text)
  /-- A node has neither children nor a parent. -/
  | unconnected (name : Text)
  | primitiveWithChildren (name : Text)
  | objectWithoutChildren (name : Text)
  | arrayChildren (name : Text)
  | arraySize (name : Text) (least : Amount)
  | ownChild (name : Text)
  | parentAsChild (name : Text)
  | repeatedName (name : Text)
  | rootCount
  | rootType
  | unknownParent (parent : Text)
  | ownParent (name : Text)
  | unknownChildren (name : Text)
  /-- A node is linked to itself as a child. -/
  | selfLink (name : Text)
  | cyclic
  | unreached
  | tooDeep (most : Amount)
deriving DecidableEq, Repr

namespace Problem

def message : Problem → Text
  | unnamed => "All data model tree nodes need a valid name."
  | untyped => "All data model tree nodes need a valid type."
  | unknownType type => type ++ " is not a known type."
  | unconnected name => "Node " ++ name ++ " is not connected to the tree."
  | primitiveWithChildren name => "Node " ++ name ++ " is a primitive type but has children."
  | objectWithoutChildren name => "Node " ++ name ++ " is an object but has no children."
  | arrayChildren name => "Node " ++ name ++ " is an array and needs exactly one child."
  | arraySize name least =>
    "Node " ++ name ++ " is an array and needs a predefined dimension of at least " ++ least.text ++ "."
  | ownChild name => "Node " ++ name ++ " is not allowed to have itself as a child."
  | parentAsChild name => "Node " ++ name ++ " is not allowed to have a parent which is also a child."
  | repeatedName name => "Node " ++ name ++ " has no unique name."
  | rootCount => "Tree is missing a root or has too many roots."
  | rootType => "Tree root must be an object."
  | unknownParent parent => "Parent " ++ parent ++ " is not a known node."
  | ownParent name => name ++ " cannot have itself as a parent."
  | unknownChildren name =>
    "There are unknown children nodes in the children list of node " ++ name ++ "."
  | selfLink name => "Node " ++ name ++ " cannot be its own child."
  | cyclic => "Tree is cyclic or one node has multiple parents."
  | unreached => "Tree is not properly traversable."
  | tooDeep most => "The level of the tree must be <= " ++ most.text

/-- Whether the message of a problem may be written. Some have a limit in them, as it was given. -/
def isWritable : Problem → Bool
  | arraySize _ least => least.isWritable
  | tooDeep most => most.isWritable
  | _ => true

/-- The stage that looks for a problem. -/
def stage : Problem → Stage
  | unnamed | untyped | unknownType _ | unconnected _ | primitiveWithChildren _ | objectWithoutChildren _
  | arrayChildren _ | arraySize _ _ | ownChild _ | parentAsChild _ => .nodes
  | repeatedName _ | rootCount | rootType => .collection
  | unknownParent _ | ownParent _ | unknownChildren _ | selfLink _ => .links
  | cyclic | unreached => .walk
  | tooDeep _ => .depth

/-- The problem if the condition holds. -/
def reportIf (condition : Bool) (p : Problem) : List Problem := if condition then [p] else []

theorem mem_reportIf (condition : Bool) (p q : Problem) :
    q ∈ reportIf condition p ↔ condition ∧ q = p := by
  cases condition <;> simp [reportIf]

theorem reportIf_eq_nil_iff (condition : Bool) (p : Problem) :
    reportIf condition p = [] ↔ condition = false := by
  cases condition <;> simp [reportIf]

end Problem

end PayloadSchema
