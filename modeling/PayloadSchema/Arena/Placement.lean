import PayloadSchema.Arena.Basic

/-!
Placing nodes: the path and the level of every node that a walk reaches, each taken from its parent's. The
element of an array gets the array's path with an array level behind it, every other child its parent's path
with its own name behind it.
-/
namespace PayloadSchema

/-- Where a node stands in its tree. -/
structure Place where
  path : Path
  depth : Nat
deriving DecidableEq, Repr

namespace Place

/-- The place of a root. -/
def root : Place := ⟨{}, 1⟩

/-- The place of a child with the given name. -/
def below (place : Place) (kind : NodeType) (name : Text) : Place where
  path := if kind = .array then place.path.element else place.path.child name
  depth := place.depth + 1

/-- Why a node cannot be placed. -/
inductive Fault where
  | outOfRange (e : OutOfRange)
  /-- The node at this position has no place when one is needed. -/
  | unplaced (position : Position)
deriving DecidableEq, Repr

/-- Places one node, given the places found before. -/
def extend (arena : List Node) (places : List (Position × Place)) (position : Position) :
    Except Fault (List (Position × Place)) := do
  let node ← (Arena.nodeAt arena position).mapError .outOfRange
  match node.parent with
  | none => return Assoc.put places position root
  | some p =>
    let parent ← (Arena.nodeAt arena p).mapError .outOfRange
    match Assoc.get? places p with
    | some place => return Assoc.put places position (place.below parent.kind node.name)
    | none => .error (.unplaced p)

/-- Places the nodes at the given positions, one after another. -/
def all (arena : List Node) (order : List Position) : Except Fault (List (Position × Place)) :=
  order.foldlM (extend arena) []

/-- Every node of an arena with its place filled in. -/
def fill (arena : List Node) (places : List (Position × Place)) : Except Fault (List Node) :=
  arena.zipIdx.mapM fun entry =>
    match Assoc.get? places (entry.2 : Position) with
    | some place => .ok { entry.1 with path := some place.path, depth := place.depth }
    | none => .error (.unplaced entry.2)

end Place

end PayloadSchema
