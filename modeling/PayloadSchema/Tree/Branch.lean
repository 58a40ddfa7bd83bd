import PayloadSchema.Arena.Basic

/-!
Branches: a node with everything below it, as a recursive value. What is computed along a tree is computed on
its branches, by recursion on them.
-/
namespace PayloadSchema

/-- A node and the branches of its children, in order. -/
inductive Branch where
  | mk (node : Node) (children : List Branch)
deriving Repr

namespace Branch

def node : Branch → Node
  | mk node _ => node

def children : Branch → List Branch
  | mk _ children => children

def kind (b : Branch) : NodeType := b.node.kind

def name (b : Branch) : Text := b.node.name

/-- The branch of a node, as far as `levels` below it. -/
def unfold (arena : List Node) : (levels : Nat) → Node → Branch
  | 0, n => mk n []
  | levels + 1, n => mk n (n.children.filterMap fun i => (Arena.nodeAt? arena i).map (unfold arena levels))

mutual

/-- The nodes of a branch, each before those below it. -/
def preorder : Branch → List Node
  | mk node children => node :: preorderAll children
termination_by structural b => b

def preorderAll : List Branch → List Node
  | [] => []
  | b :: rest => preorder b ++ preorderAll rest
termination_by structural bs => bs

end

mutual

/-- The nodes on the way down that always takes the first child, ending at a leaf. -/
def spine : Branch → List Node
  | mk node children => node :: spineOfFirst children
termination_by structural b => b

def spineOfFirst : List Branch → List Node
  | [] => []
  | b :: _ => spine b
termination_by structural bs => bs

end

end Branch

end PayloadSchema
