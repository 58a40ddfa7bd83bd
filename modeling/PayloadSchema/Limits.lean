import PayloadSchema.Json.Amount

/-!
The limits a schema is held to: how many levels its tree may have, the root counted as the first, and how small
an array may be. Neither is less than one. Messages show them as they were given.
-/
namespace PayloadSchema

structure Limits where
  maxDepth : Nat := 5
  minArraySize : Nat := 2
  /-- The limit on levels as it was given. -/
  givenDepth : Amount := .whole maxDepth
  /-- The limit on arrays as it was given. -/
  givenSize : Amount := .whole minArraySize
  one_le_maxDepth : 1 ≤ maxDepth := by decide
  one_le_minArraySize : 1 ≤ minArraySize := by decide
deriving DecidableEq, Repr

namespace Limits

/-- The limits that hold where none are given. -/
def usual : Limits := {}

/-- Why values are no limits. -/
inductive Fault where
  | maxDepth (given : Amount)
  | minArraySize (given : Amount)
  /-- A limit is a value that has no place among the numbers. -/
  | notNumber (found : Json.Kind)
deriving DecidableEq, Repr

/-- What is said of an amount, unless it has too many digits to be written. -/
def Fault.saying (text : Text) (given : Amount) : Text :=
  if given.isWritable then text ++ given.text else Numeral.unwritable

def Fault.message : Fault → Text
  | maxDepth given => saying "max_depth must be >= 1, got " given
  | minArraySize given => saying "min_array_size must be >= 1, got " given
  | notNumber found => found.noOrder

/-- Whether both limits may be written. -/
def isWritable (limits : Limits) : Bool := limits.givenDepth.isWritable && limits.givenSize.isWritable

/-- The limits that two amounts make. The depth is looked at first. -/
def of (depth size : Amount) : Except Fault Limits :=
  if depth.isBelow 1 then .error (.maxDepth depth)
  else if size.isBelow 1 then .error (.minArraySize size)
  else .ok {
    maxDepth := max 1 depth.most
    minArraySize := max 1 size.least
    givenDepth := depth
    givenSize := size
    one_le_maxDepth := Nat.le_max_left 1 _
    one_le_minArraySize := Nat.le_max_left 1 _ }

/-- The amount that a value gives for a limit, or the usual one. -/
def readAmount (usual : Amount) : Option Json → Except Fault Amount
  | none => .ok usual
  | some v => (Amount.ofJson v).mapError .notNumber

/-- The limits that values give, where what is left out is as usual. Nothing is said of the second value before
the first one is found to do. -/
def ofFields (maxDepth minArraySize : Option Json) : Except Fault Limits := do
  let depth ← readAmount usual.givenDepth maxDepth
  let _ ← of depth usual.givenSize
  let size ← readAmount usual.givenSize minArraySize
  of depth size

/-- Whole numbers are limits as they are. -/
theorem of_whole_eq_ok_iff {depth size : Int} {limits : Limits} :
    of (.whole depth) (.whole size) = .ok limits ↔
      limits.maxDepth = depth ∧ limits.minArraySize = size ∧
        limits.givenDepth = .whole depth ∧ limits.givenSize = .whole size := by
  obtain ⟨maxDepth, minArraySize, givenDepth, givenSize, hasDepth, hasSize⟩ := limits
  simp only [of, Amount.isBelow_whole, decide_eq_true_eq, Amount.most, Amount.least]
  split
  · simp only [reduceCtorEq, false_iff]
    omega
  · split
    · simp only [reduceCtorEq, false_iff]
      omega
    · simp only [Except.ok.injEq, mk.injEq]
      constructor
      · rintro ⟨rfl, rfl, rfl, rfl⟩
        refine ⟨?_, ?_, rfl, rfl⟩ <;> omega
      · rintro ⟨rfl, rfl, rfl, rfl⟩
        refine ⟨?_, ?_, rfl, rfl⟩ <;> omega

end Limits

end PayloadSchema
