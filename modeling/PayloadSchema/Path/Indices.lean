import PayloadSchema.Json.Amount
import PayloadSchema.Path.Basic

/-!
Indices given as values of any kind. They are looked at from the first on: each has to be a number, and none may be
below zero. Indices that are whole numbers fare as `instantiate` says.
-/
namespace PayloadSchema.Path

/-- What keeps values from being indices, where `all` are the ones that messages show. -/
def obstacle? (all : List Json) : List Json → Option IndexError
  | [] => none
  | v :: rest =>
    match Amount.ofJson v with
    | .error found => some (.notNumber found)
    | .ok a =>
      if a.isBelow 0 then
        some (if all.all (·.isWritable) then .negative (Text.tuple (all.map Json.literal)) else .unwritable)
      else obstacle? all rest

/-- The whole number that an index is. -/
def readIndex : Json → Except IndexError Int
  | .int i => if Numeral.isWritable i then .ok i else .error .unwritable
  | .bool b => .ok b.toNat
  | v => .error (.notWhole v.kind)

/-- The path to one position of a document, given a value as index for each array level. -/
def instantiateAt (path : Path) (values : List Json) : Except IndexError Path :=
  if values.length ≠ path.wildcardCount then .error (.wrongCount path values.length)
  else match obstacle? values values with
    | some e => .error e
    | none => do path.instantiate (← values.mapM readIndex)

theorem obstacle?_map_int (all : List Json) (indices : List Int) :
    obstacle? all (indices.map .int) =
      if indices.any (· < 0) then
        some (if all.all (·.isWritable) then .negative (Text.tuple (all.map Json.literal)) else .unwritable)
      else none := by
  induction indices with
  | nil => rfl
  | cons i rest ih =>
    by_cases negative : i < 0
    · simp [obstacle?, Amount.ofJson, Amount.isBelow, negative]
    · simp [obstacle?, Amount.ofJson, Amount.isBelow, negative, ih]

theorem mapM_readIndex (indices : List Int) : (indices.map Json.int).mapM readIndex =
    if indices.any (!Numeral.isWritable ·) then .error .unwritable else .ok indices := by
  induction indices with
  | nil => rfl
  | cons i rest ih =>
    rw [List.map_cons, List.mapM_cons, ih, readIndex, List.any_cons]
    cases Numeral.isWritable i
    · rfl
    · cases rest.any (!Numeral.isWritable ·) <;> rfl

/-- Whole numbers are indices as they are. -/
theorem instantiateAt_map_int (path : Path) (indices : List Int) :
    path.instantiateAt (indices.map .int) = path.instantiate indices := by
  have shown : (indices.map Json.int).map Json.literal = indices.map Numeral.integer := by
    simp [Function.comp_def, Json.literal]
  have writable : (indices.map Json.int).all (·.isWritable) = !indices.any (!Numeral.isWritable ·) := by
    simp [Function.comp_def, Json.isWritable, List.all_eq_not_any_not]
  unfold instantiateAt instantiate
  rw [obstacle?_map_int, mapM_readIndex, shown, writable, List.length_map]
  by_cases count : indices.length = path.wildcardCount
  · cases long : indices.any (!Numeral.isWritable ·) <;> cases negative : indices.any (· < 0) <;>
      simp [count, negative, long, Bind.bind, Except.bind]
  · simp [count]

end PayloadSchema.Path
