import PayloadSchema.Matching.Arrangement
import PayloadSchema.Matching.Assignment
import PayloadSchema.Matching.Feasible

/-!
Assigners. Looking at every permutation finds a cheapest assignment, but takes long. One that was found otherwise can be
seen to be cheapest by prices: when the price of a row and the price of a column never exceed the cost of their cell
together, no assignment costs less than all prices do. So an offer that costs just as much is taken, and without one
every permutation is looked at. Where cells cost nothing or one, serving the rows one after another makes such an offer.
-/
namespace PayloadSchema

/-- The assignment that gives each row in turn the column at its place. -/
def Assignment.ofOrder (order : List Nat) : Assignment := ⟨List.range order.length, order⟩

/-- An assignment with prices for the rows and the columns. -/
structure Offer where
  assignment : Assignment
  rowPrice : Nat → Int
  columnPrice : Nat → Int

namespace Offer

def price (o : Offer) (cell : Nat × Nat) : Int := o.rowPrice cell.1 + o.columnPrice cell.2

/-- Whether an offer is an assignment and its prices show that it is cheapest. -/
def isCheapest (o : Offer) (size : Nat) (cost : Nat → Nat → Nat) : Bool :=
  let all := List.range size
  o.assignment.rows.isPerm all && o.assignment.columns.isPerm all
    && (all.all fun i => all.all fun j => o.price (i, j) ≤ cost i j)
    && o.assignment.cells.all fun e => o.price e = cost e.1 e.2

end Offer

namespace Pairing

/-- What it comes to when rows are served that need not all get a column. -/
structure Service where
  /-- The row that owns each column given away. -/
  owners : List (Nat × Nat) := []
  /-- The rows that got no column. -/
  idle : List Nat := []
  /-- The columns that were asked for in vain. -/
  asked : List Nat := []

def Service.serve (mask : Mask) (s : Service) (row : Nat) : Service :=
  match seek mask (mask.columns + 1) row { owners := s.owners } with
  | (true, t) => { s with owners := t.owners }
  | (false, t) => { s with idle := s.idle ++ [row], asked := t.asked ++ s.asked }

/-- Every row with the column that it owns, and the others with the columns that are left. A row is worth one when it
got no column or owns one that was asked for in vain, and such a column is worth one less. -/
def Service.offer (s : Service) (size : Nat) : Offer :=
  let free := (List.range size).filter fun j => (Assoc.get? s.owners j).isNone
  let dear := s.idle ++ (s.owners.filter fun e => s.asked.contains e.1).map Prod.snd
  { assignment := ⟨s.owners.map Prod.snd ++ s.idle, s.owners.map Prod.fst ++ free⟩
    rowPrice := fun i => if dear.contains i then 1 else 0
    columnPrice := fun j => if s.asked.contains j then -1 else 0 }

/-- The offer that comes of giving rows columns that cost nothing, as far as there are any. -/
def offer (size : Nat) (cost : Nat → Nat → Nat) : Offer :=
  let mask : Mask := ⟨size, size, fun i j => cost i j = 0⟩
  ((List.range size).foldl (Service.serve mask) {}).offer size

end Pairing

namespace Assigner

/-- The assigner that looks at every permutation and takes the first of the cheapest. -/
def exhaustive : Assigner where
  solve size cost :=
    let every := ({ size, mask := none } : Arrangements).toList.map Assignment.ofOrder
    (every.minOn? (Assignment.total cost)).getD ⟨[], []⟩

/-- The assigner that takes an offer that is seen to be cheapest, and asks another one where it is not. -/
def checked (offer : (size : Nat) → (cost : Nat → Nat → Nat) → Offer) (otherwise : Assigner) : Assigner where
  solve size cost :=
    let o := offer size cost
    if o.isCheapest size cost then o.assignment else otherwise.solve size cost

/-- The assigner that serves the rows one after another. -/
def serving : Assigner := checked Pairing.offer exhaustive

/-- Two rows that may have the first of three columns only, and a third that may have any. -/
example : (serving.solve 3 fun i j => if i = 2 ∨ j = 0 then 0 else 1) = ⟨[0, 2, 1], [0, 1, 2]⟩ := by decide

end Assigner

end PayloadSchema
