import PayloadSchema.Tree.Basic

/-!
The leaves of a tree that can feed a pattern which is a single chain. The chain goes from the pattern's root down
the first children to a leaf. A leaf of the tree fits when it has the type of that leaf and at least as many
arrays on its way to the root as the chain has.
-/
namespace PayloadSchema

/-- A leaf that fits a pattern. Its type and dimension are those of the pattern's root. -/
structure LeafPath where
  name : Text
  kind : NodeType
  dimension : Int
  unit : Text
  path : Text
deriving DecidableEq, Repr

namespace SchemaTree

def arrayCount (nodes : List Node) : Nat := nodes.countP (·.kind = .array)

/-- The number of arrays from a node up to the root, itself included. -/
def arraysAbove (t : SchemaTree) (n : Node) : Nat :=
  match n.ancestorsIn t.nodes with
  | .ok chain => arrayCount (n :: chain)
  | .error _ => 0

/-- The leaves that fit a pattern, in the order of the walk. -/
def leafPathsFor (t : SchemaTree) (pattern : Branch) : List LeafPath :=
  let chain := pattern.spine
  match chain.getLast? with
  | none => []
  | some last =>
    (t.leaves.filter fun n => n.kind = last.kind && arrayCount chain ≤ t.arraysAbove n).map fun n =>
      { name := n.name, kind := pattern.kind, dimension := pattern.node.size, unit := n.unit
        path := n.pathText }

end SchemaTree

end PayloadSchema
