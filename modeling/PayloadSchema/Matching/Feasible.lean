import PayloadSchema.Assoc
import PayloadSchema.Matching.Mask

/-!
Whether all rows of a mask can be paired with different columns. The rows are given a column one after another.
A row takes a free column, or a column whose owner can move to another one; a column is asked for once while a
row is served. When a row cannot be served, the columns that were asked for are fewer than the rows that want
nothing else, so no pairing exists at all.
-/
namespace PayloadSchema

namespace Pairing

/-- The state of a search for a column. -/
structure Search where
  /-- The columns that were asked for. -/
  asked : List Nat := []
  /-- The row that owns each column given away. -/
  owners : List (Nat × Nat) := []
deriving DecidableEq, Repr

/-- Tries columns for a row, one after another, where `move` looks for another column for an owner. -/
def tryColumns (allows : Nat → Nat → Bool) (move : Nat → Search → Bool × Search) (row : Nat) :
    List Nat → Search → Bool × Search
  | [], s => (false, s)
  | j :: rest, s =>
    if allows row j && !s.asked.contains j then
      let s := { s with asked := j :: s.asked }
      match Assoc.get? s.owners j with
      | none => (true, { s with owners := Assoc.put s.owners j row })
      | some owner =>
        match move owner s with
        | (true, s) => (true, { s with owners := Assoc.put s.owners j row })
        | (false, s) => tryColumns allows move row rest s
    else tryColumns allows move row rest s

/-- Looks for a column for a row. Each level of moves asks for a new column, so there are never more levels than
columns. -/
def seek (mask : Mask) : (levels : Nat) → (row : Nat) → Search → Bool × Search
  | 0, _, s => (false, s)
  | levels + 1, row, s => tryColumns mask.allows (seek mask levels) row (List.range mask.columns) s

/-- Serves rows one after another; no answer if one cannot be served. -/
def serve (mask : Mask) (owners : List (Nat × Nat)) : List Nat → Option (List (Nat × Nat))
  | [] => some owners
  | row :: rest =>
    match seek mask (mask.columns + 1) row { owners := owners } with
    | (true, s) => serve mask s.owners rest
    | (false, _) => none

end Pairing

/-- Whether the rows can be paired off with the columns, none left over on either side. -/
def Mask.hasPerfectMatching (mask : Mask) : Bool :=
  mask.rows = mask.columns && (Pairing.serve mask [] (List.range mask.rows)).isSome

/-- Why a grid is no mask. -/
structure Mask.Fault where
  dimensions : Nat
deriving DecidableEq, Repr

def Mask.Fault.message (e : Mask.Fault) : Text :=
  if 2 < e.dimensions then "too many values to unpack (expected 2)"
  else "not enough values to unpack (expected 2, got " ++ toString e.dimensions ++ ")"

/-- Whether the rows of a grid of two dimensions can be paired off with its columns. -/
def Grid.hasPerfectMatching (g : Grid) : Except Mask.Fault Bool :=
  match g.mask? with
  | some mask => .ok mask.hasPerfectMatching
  | none => .error ⟨g.shape.length⟩

end PayloadSchema
