import PayloadSchema.Arena.Basic

/-!
Binding nodes to an arena. A node is bound once, to the whole list of nodes it stands in, and at the position it
is meant for. Binding a list that has a misplaced or a bound node changes none of its nodes.
-/
namespace PayloadSchema

/-- A node and the arena it is bound to; the arena of an unbound node is empty. -/
structure Cell where
  node : Node
  arena : List Node := []
deriving DecidableEq, Repr

/-- Why nodes are not bound. -/
inductive BindError where
  | misplaced (name : Text) (index : Int) (position : Nat)
  | bound (name : Text)
deriving DecidableEq, Repr

def BindError.message : BindError → Text
  | misplaced name index position =>
    "Node " ++ Text.quoted name ++ " has index " ++ toString index ++ ", expected " ++ toString position
  | bound name => "Node " ++ Text.quoted name ++ " is already bound to an arena"

namespace Arena

/-- What keeps a cell from being bound at a position. -/
def obstacle? (position : Nat) (cell : Cell) : Option BindError :=
  if cell.node.index ≠ position then some (.misplaced cell.node.name cell.node.index position)
  else if cell.arena.isEmpty then none
  else some (.bound cell.node.name)

/-- The first obstacle among cells that stand from a position on. -/
def firstObstacle? (position : Nat) : List Cell → Option BindError
  | [] => none
  | cell :: rest => (obstacle? position cell).or (firstObstacle? (position + 1) rest)

/-- Binds every cell to all of them, or none. The answer has the cells as they are afterwards. -/
def bind (cells : List Cell) : Option BindError × List Cell :=
  match firstObstacle? 0 cells with
  | some e => (some e, cells)
  | none =>
    let arena := cells.map Cell.node
    (none, cells.map fun cell => { cell with arena := arena })

end Arena

end PayloadSchema
