import PayloadSchema.Arena.Walk
import PayloadSchema.Limits
import PayloadSchema.Path.Index
import PayloadSchema.Tree.Branch

/-!
Schema trees. A tree keeps its nodes in an arena, in the order of the descriptors they were built from, with
the index of their paths. Its branches are the same tree as a recursive value.
-/
namespace PayloadSchema

structure SchemaTree where
  nodes : List Node
  root : Node
  paths : PathIndex
  /-- The descriptors the tree was built from, in their normal form. -/
  descriptors : List Descriptor
  limits : Limits
deriving DecidableEq, Repr

namespace SchemaTree

def links (t : SchemaTree) : List Links := t.nodes.map (·.toLinks)

/-- The number of nodes. -/
def size (t : SchemaTree) : Nat := t.nodes.length

/-- A fresh walk over the tree. -/
def walk (t : SchemaTree) : Except OutOfRange Walk := Walk.start t.links (some t.root.index)

/-- The positions of the nodes, each parent before its children. -/
def order (t : SchemaTree) : List Position :=
  match Walk.whole t.links t.root.index with
  | .ok (order, _) => order
  | .error _ => []

/-- The nodes, each parent before its children. -/
def preorder (t : SchemaTree) : List Node := t.order.filterMap (Arena.nodeAt? t.nodes)

def leaves (t : SchemaTree) : List Node := t.preorder.filter (·.isLeaf)

/-- The number of levels. -/
def depth (t : SchemaTree) : Nat := (t.leaves.map (·.depth)).max?.getD 1

/-- The node with exactly this name. -/
def node? (t : SchemaTree) (name : Text) : Option Node := t.nodes.find? (·.name = name)

/-- What hangs at a node of the tree. -/
def branch (t : SchemaTree) (n : Node) : Branch := Branch.unfold t.nodes t.nodes.length n

/-- The whole tree as a recursive value. -/
def trunk (t : SchemaTree) : Branch := t.branch t.root

/-- The entry of a path text. -/
def lookup (t : SchemaTree) (text : Text) : Option PathEntry := t.paths.lookup text

/-- A tree as messages show it. -/
def literal (t : SchemaTree) : Text :=
  "SchemaTree(root=" ++ Text.quoted t.root.name ++ ", nodes=" ++ toString t.size ++ ")"

/-- Every node and its path, one line each. -/
def listing (t : SchemaTree) : Text :=
  t.preorder.flatMap fun n => n.name ++ " jsonPath: " ++ n.pathText ++ "\n"

end SchemaTree

end PayloadSchema
