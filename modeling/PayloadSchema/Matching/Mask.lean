import PayloadSchema.Number.Numeral
import PayloadSchema.Text.Quoted

/-!
Masks: which columns each row may be paired with. A mask comes as a grid of truth values, and a grid of two dimensions
is a mask.
-/
namespace PayloadSchema

/-- For each row the columns that it may be paired with. -/
structure Mask where
  rows : Nat
  columns : Nat
  allows : Nat → Nat → Bool

/-- Truth values in any number of dimensions, the last index running fastest. -/
structure Grid where
  shape : List Nat
  cells : List Bool
deriving DecidableEq, Repr

namespace Grid

/-- The largest number that counts cells. -/
def indexLimit : Nat := 9223372036854775807

/-- A shape as messages show it. -/
def shapeText (shape : List Nat) : Text := Text.tuple (shape.map Numeral.natural)

/-- The mask of a grid of two dimensions. -/
def mask? (g : Grid) : Option Mask :=
  match g.shape with
  | [rows, columns] =>
    let table := g.cells.toArray
    some ⟨rows, columns, fun i j => j < columns && (table[i * columns + j]?).getD false⟩
  | _ => none

end Grid

end PayloadSchema
