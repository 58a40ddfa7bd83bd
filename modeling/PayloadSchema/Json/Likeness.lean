import PayloadSchema.Json.Basic

/-!
Likeness of values. Numbers are alike when they are equal as numbers, however they are written, and the truth
values count as one and zero. Arrays are alike item by item, objects member by member in any order.
-/
namespace PayloadSchema.Json

/-- A truth value as a number; any other value as it is. -/
def counted : Json → Json
  | bool b => int (if b then 1 else 0)
  | v => v

/-- Whether two values are numbers that are equal. What is no number is equal to itself. -/
def equalNumbers : Json → Json → Bool
  | int i, int j => i = j
  | int i, real x => x.isInt i
  | real x, int i => x.isInt i
  | real x, real y => x = y || (x.isZero && y.isZero)
  | _, _ => false

mutual

def alike : Json → Json → Bool
  | null, null => true
  | str s, str t => s = t
  | arr items, arr others => alikeItems items others
  | obj members, obj others => members.length = others.length && alikeMembers members others
  | v, w => equalNumbers v.counted w.counted
termination_by structural v => v

def alikeItems : List Json → List Json → Bool
  | [], [] => true
  | v :: rest, w :: others => alike v w && alikeItems rest others
  | _, _ => false
termination_by structural items => items

/-- Whether each of some members has its like in another object. -/
def alikeMembers : List (Text × Json) → List (Text × Json) → Bool
  | [], _ => true
  | (name, v) :: rest, others =>
    (match Assoc.get? others name with
    | some w => alike v w
    | none => false) && alikeMembers rest others
termination_by structural members => members

end

theorem alike_str (s t : Text) : alike (str s) (str t) = decide (s = t) := by
  simp [alike]

end PayloadSchema.Json
