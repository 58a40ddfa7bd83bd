import PayloadSchema.Matching.Feasible

/-!
Assignments of columns to rows. A mask can be asked for a pairing by way of costs: a cell that is not allowed costs
one and every other cell nothing, so that a cheapest assignment uses allowed cells only where that is possible at
all. What finds cheapest assignments is a parameter here.
-/
namespace PayloadSchema

/-- Rows and the columns they are assigned, at the same places. -/
structure Assignment where
  rows : List Nat
  columns : List Nat
deriving DecidableEq, Repr

namespace Assignment

def cells (a : Assignment) : List (Nat × Nat) := a.rows.zip a.columns

/-- What the cells cost together. -/
def total (cost : Nat → Nat → Nat) (a : Assignment) : Nat := (a.cells.map fun e => cost e.1 e.2).foldr (· + ·) 0

/-- Whether each row and each column of a square is assigned once. -/
structure Complete (size : Nat) (a : Assignment) : Prop where
  rows : a.rows.Perm (List.range size)
  columns : a.columns.Perm (List.range size)

end Assignment

/-- What finds an assignment, given the costs of the cells of a square. -/
structure Assigner where
  solve : (size : Nat) → (cost : Nat → Nat → Nat) → Assignment

/-- What is relied on: the answer is an assignment, and no other assignment costs less. -/
structure Assigner.Cheapest (assigner : Assigner) : Prop where
  complete : ∀ size cost, (assigner.solve size cost).Complete size
  least : ∀ size cost (other : Assignment), other.Complete size →
    (assigner.solve size cost).total cost ≤ other.total cost

namespace Mask

/-- Whether no row and no column is without a cell that is allowed. -/
def hasOptions (mask : Mask) : Bool :=
  ((List.range mask.rows).all fun i => (List.range mask.columns).any fun j => mask.allows i j)
    && (List.range mask.columns).all fun j => (List.range mask.rows).any fun i => mask.allows i j

def cost (mask : Mask) (i j : Nat) : Nat := if mask.allows i j then 0 else 1

/-- Whether the rows can be paired off with the columns, by what a cheapest assignment uses. Only a square whose
rows and columns all have options is given to the assigner. -/
def isAssignable (assigner : Assigner) (mask : Mask) : Bool :=
  if mask.rows ≠ mask.columns then false
  else if mask.rows = 0 then true
  else if !mask.hasOptions then false
  else (assigner.solve mask.rows mask.cost).cells.all fun e => mask.allows e.1 e.2

end Mask

/-- Whether the rows of a grid of two dimensions can be paired off with its columns, by way of an assigner. -/
def Grid.isAssignable (assigner : Assigner) (g : Grid) : Except Mask.Fault Bool :=
  match g.mask? with
  | some mask => .ok (mask.isAssignable assigner)
  | none => .error ⟨g.shape.length⟩

end PayloadSchema
