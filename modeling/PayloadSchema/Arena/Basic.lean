import PayloadSchema.Descriptor.Basic
import PayloadSchema.NodeType
import PayloadSchema.Path.Basic

/-!
Arenas: all nodes of a schema in one list, linked to each other by their positions in it. Nothing here supposes
that the links make a tree, or that they stay inside the arena.
-/
namespace PayloadSchema

/-- A position in an arena. The first node is at 0. A position below zero is counted from the end, where the last
node is at -1, so every node has two positions. -/
abbrev Position := Int

/-- The links of a node. -/
structure Links where
  /-- The position of the parent; a root has none. -/
  parent : Option Position := none
  /-- The positions of the children, in order. -/
  children : List Position := []
deriving DecidableEq, Repr

/-- A node of a schema. -/
structure Node extends Links where
  /-- The position that the node is meant for. -/
  index : Int
  descriptor : Descriptor
  kind : NodeType
  /-- The path from the root, once the node is placed. -/
  path : Option Path := none
  /-- The level of the node, the root's being one; zero until the node is placed. -/
  depth : Nat := 0
deriving DecidableEq, Repr

/-- A link leads to a position outside the arena. -/
structure OutOfRange where
  position : Position
deriving DecidableEq, Repr

namespace Arena

variable {α : Type}

/-- The node at a position, if there is one. -/
def nodeAt? (arena : List α) (position : Position) : Option α :=
  if 0 ≤ position then arena[position.toNat]?
  else if -position ≤ arena.length then arena[(arena.length + position).toNat]?
  else none

/-- The node at a position. -/
def nodeAt (arena : List α) (position : Position) : Except OutOfRange α :=
  match nodeAt? arena position with
  | some n => .ok n
  | none => .error ⟨position⟩

theorem nodeAt?_natCast (arena : List α) (i : Nat) : nodeAt? arena (i : Position) = arena[i]? := by
  simp [nodeAt?]

/-- Counting from the end leads to the node that counting from the front does. -/
theorem nodeAt?_sub_length (arena : List α) {i : Nat} (inside : i < arena.length) :
    nodeAt? arena ((i : Position) - arena.length) = arena[i]? := by
  have below : ¬ (0 : Int) ≤ (i : Int) - arena.length := by omega
  have reached : -((i : Int) - arena.length) ≤ arena.length := by omega
  have front : ((arena.length : Int) + ((i : Int) - arena.length)).toNat = i := by omega
  simp only [nodeAt?, below, reached, if_true, if_false, front]

end Arena

namespace Node

def name (n : Node) : Text := n.descriptor.name

def size (n : Node) : Int := n.descriptor.size

def unit (n : Node) : Text := n.descriptor.unit

def isLeaf (n : Node) : Bool := n.children.isEmpty

def isRoot (n : Node) : Bool := n.parent.isNone

/-- The text of the node's path; empty until the node is placed. -/
def pathText (n : Node) : Text :=
  match n.path with
  | some path => path.text
  | none => ""

def parentIn (arena : List Node) (n : Node) : Except OutOfRange (Option Node) :=
  match n.parent with
  | none => .ok none
  | some p => (Arena.nodeAt arena p).map some

def childrenIn (arena : List Node) (n : Node) : Except OutOfRange (List Node) :=
  n.children.mapM (Arena.nodeAt arena)

/-- At most `levels` of the nodes above a node, the nearest first. -/
def climb (arena : List Node) : (levels : Nat) → Node → Except OutOfRange (List Node)
  | 0, _ => .ok []
  | levels + 1, n => do
    match ← n.parentIn arena with
    | none => return []
    | some p => return p :: (← climb arena levels p)

/-- The nodes above a node, the nearest first. A chain of parents that comes to an end is no longer than the
arena. -/
def ancestorsIn (arena : List Node) (n : Node) : Except OutOfRange (List Node) :=
  n.climb arena arena.length

end Node

end PayloadSchema
