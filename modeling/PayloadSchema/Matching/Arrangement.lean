import PayloadSchema.Json.Amount
import PayloadSchema.Matching.Mask
import PayloadSchema.Matching.Series

/-!
Arrangements: the ways to put the numbers below `size` into as many places, each number once, in increasing
lexicographic order. A mask says which numbers a place may hold; a number that is not allowed is left out
before anything is put behind it.
-/
namespace PayloadSchema

/-- The arrangements of a number of elements, perhaps under a mask. -/
structure Arrangements where
  size : Nat
  mask : Option Mask
  /-- The size as it was given. -/
  given : Amount := .whole size

namespace Arrangements

/-- Why there are no arrangements to speak of. -/
inductive Fault where
  | negative (size : Amount)
  | shape (size : Amount) (found : List Nat)
  /-- The size is a number with a fraction, or was given as one. -/
  | notCount
deriving DecidableEq, Repr

def Fault.message : Fault → Text
  | negative size => "n must be >= 0, got " ++ size.text
  | shape size found =>
    "allowed mask must have shape (" ++ size.text ++ ", " ++ size.text ++ "), got " ++ Grid.shapeText found
  | notCount => "can't multiply sequence by non-int of type 'float'"

/-- Whether a grid has the shape of a mask for so many elements. -/
def fits (size : Amount) (g : Grid) : Bool := g.shape.length = 2 && g.shape.all fun e => size.equals e

/-- The arrangements of `size` elements under the mask that a grid makes. -/
def of (size : Amount) (grid : Option Grid) : Except Fault Arrangements :=
  if size.isBelow 0 then .error (.negative size)
  else match grid.filter (!fits size ·), size with
    | some g, _ => .error (.shape size g.shape)
    | none, .real _ => .error .notCount
    | none, _ => .ok ⟨size.most, grid.bind Grid.mask?, size⟩

/-- Whether a place may hold an element. -/
def allows (a : Arrangements) (place element : Nat) : Bool :=
  match a.mask with
  | none => true
  | some mask => mask.allows place element

/-- Every way to fill `left` more places, starting with `place`, from the elements not used so far. What stands in
the places before is `front`, the last of them first. -/
def extend (a : Arrangements) (front : List Nat) (unused : List Nat) : (left : Nat) → Series (List Nat)
  | 0 => .item front.reverse fun _ => .done
  | left + 1 =>
    Series.concat (fun element => extend a (element :: front) (unused.erase element) left)
      (unused.filter (a.allows front.length ·))

/-- All arrangements, in order, not yet begun. -/
def series (a : Arrangements) : Unit → Series (List Nat) := fun _ => a.extend [] (List.range a.size) a.size

/-- The arrangements as a list. -/
def toList (a : Arrangements) : List (List Nat) := (a.series ()).toList

/-- Why there is no going through arrangements one by one. -/
inductive Overrun where
  /-- There are more elements than can be numbered. -/
  | uncountable
  /-- There are more elements than can be kept account of. -/
  | unaffordable
  /-- The places are nested deeper than allowed. -/
  | tooDeep
deriving DecidableEq, Repr

def Overrun.message : Overrun → Text
  | uncountable => "cannot fit 'int' into an index-sized integer"
  | unaffordable => ""
  | tooDeep => "the places are nested too deep"

/-- The most elements that can be kept account of: 64 gibibytes, at eight bytes each. -/
def accountLimit : Nat := 8589934592

/-- The first `count` arrangements. Every place is filled inside the one before it, so with a limit on nesting
there is no arrangement of more elements than that. -/
def take (depthLimit : Option Nat) (count : Nat) (a : Arrangements) : Except Overrun (List (List Nat)) :=
  if Grid.indexLimit < a.size then .error .uncountable
  else if accountLimit < a.size then .error .unaffordable
  else if count ≠ 0 && depthLimit.any (· < a.size) then .error .tooDeep
  else .ok (Series.take count a.series)

theorem take_of_small {depthLimit : Option Nat} {count : Nat} {a : Arrangements} (small : a.size ≤ accountLimit)
    (shallow : ∀ limit, depthLimit = some limit → a.size ≤ limit) :
    a.take depthLimit count = .ok (a.toList.take count) := by
  have within : ¬ Grid.indexLimit < a.size := by
    have : accountLimit ≤ Grid.indexLimit := by decide
    omega
  have admitted : depthLimit.any (· < a.size) = false := by
    cases depthLimit with
    | none => rfl
    | some limit => simpa using shallow limit rfl
  simp [take, toList, within, admitted, Nat.not_lt.mpr small, Series.take_eq_take_toList]

/-- The object as messages show it. -/
def literal (a : Arrangements) : Text :=
  "Permutations(" ++ a.given.text ++ (if a.mask.isSome then ", masked" else "") ++ ")"

example : (Arrangements.mk 3 none (.whole 3)).toList =
    [[0, 1, 2], [0, 2, 1], [1, 0, 2], [1, 2, 0], [2, 0, 1], [2, 1, 0]] := by decide

end Arrangements

end PayloadSchema
