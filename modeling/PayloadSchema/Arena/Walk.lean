import PayloadSchema.Arena.Basic

/-!
Walking an arena from a node, each parent before its children and each subtree without interruption. The walk
ends on every arena. It skips a child that it has seen, that is waiting already, or that names another node
as its parent, and remembers that it did: where positions are counted from the front, a walk that reaches every
node without skipping any has found a tree.
-/
namespace PayloadSchema

/-- The state of a walk. -/
structure Walk where
  /-- The positions that wait, the next one first. -/
  stack : List Position := []
  /-- The positions that were reached, the last one first. -/
  visited : List Position := []
  /-- Whether the walk began below another node or skipped a child. -/
  cyclic : Bool := false
deriving DecidableEq, Repr

namespace Walk

/-- A walk that is about to begin; without a start it is over at once. -/
def start (links : List Links) : Option Position → Except OutOfRange Walk
  | none => .ok {}
  | some root => do
    let node ← Arena.nodeAt links root
    return { stack := [root], cyclic := node.parent.isSome }

/-- Lets a child of the node at `position` wait, or skips it. -/
def schedule (links : List Links) (position : Position) (w : Walk) (child : Position) : Except OutOfRange Walk := do
  let node ← Arena.nodeAt links child
  if w.visited.contains child || w.stack.contains child || node.parent ≠ some position then
    return { w with cyclic := true }
  else
    return { w with stack := child :: w.stack }

/-- The next position and the walk after it. The children are scheduled from the last to the first, so that the
first one is reached next. -/
def next (links : List Links) (w : Walk) : Except OutOfRange (Option (Position × Walk)) :=
  match w.stack with
  | [] => .ok none
  | position :: waiting => do
    let node ← Arena.nodeAt links position
    let after ← node.children.reverse.foldlM (schedule links position)
      { w with stack := waiting, visited := position :: w.visited }
    return some (position, after)

/-- The next `steps` positions, each with the walk after it; fewer if the walk ends. -/
def steps (links : List Links) : (steps : Nat) → Walk → Except OutOfRange (List (Position × Walk))
  | 0, _ => .ok []
  | count + 1, w => do
    match ← w.next links with
    | none => return []
    | some (position, after) => return (position, after) :: (← steps links count after)

/-- The walk after some of its steps. -/
def last (w : Walk) (taken : List (Position × Walk)) : Walk :=
  match taken.getLast? with
  | some (_, after) => after
  | none => w

/-- All steps that are still to come. No position comes twice, so there are at most two for each node. -/
def toEnd (links : List Links) (w : Walk) : Except OutOfRange (List (Position × Walk)) :=
  w.steps links (2 * links.length)

/-- All positions that are still to come, and the end of the walk. -/
def remaining (links : List Links) (w : Walk) : Except OutOfRange (List Position × Walk) := do
  let taken ← w.toEnd links
  return (taken.map Prod.fst, w.last taken)

def visitedCount (w : Walk) : Nat := w.visited.length

/-- The positions of a whole walk, in order, and its end. -/
def whole (links : List Links) (root : Position) : Except OutOfRange (List Position × Walk) := do
  (← start links (some root)).remaining links

/-- A node that lists itself is reached once, and the walk says so. -/
example : (whole [⟨none, [0]⟩] 0).toOption = some ([0], ⟨[], [0], true⟩) := by decide

/-- A node that is listed at both its positions is reached twice. -/
example : ((whole [⟨none, [1, -1]⟩, ⟨some 0, []⟩] 0).toOption.map Prod.fst) = some [0, 1, -1] := by decide

end Walk

end PayloadSchema
