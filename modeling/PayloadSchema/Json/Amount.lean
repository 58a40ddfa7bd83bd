import PayloadSchema.Json.Literal
import PayloadSchema.Number.Numeral

/-!
Amounts: the numbers that limits and counts are given as. Messages show an amount as it was given; what it admits
is a matter of whole numbers. A count is at most an amount when it is at most `most`, and at least an amount
when it is at least `least`.
-/
namespace PayloadSchema

/-- A number as it was given. A truth value counts as one or zero. -/
inductive Amount where
  | whole (i : Int)
  | truth (b : Bool)
  | real (x : Binary64)
deriving DecidableEq, Repr

namespace Amount

/-- The amount that a value is; values of the other kinds are none. -/
def ofJson : Json → Except Json.Kind Amount
  | .int i => .ok (whole i)
  | .bool b => .ok (truth b)
  | .real x => .ok (real x)
  | v => .error v.kind

def toJson : Amount → Json
  | whole i => .int i
  | truth b => .bool b
  | real x => .real x

/-- An amount as messages show it. -/
def text (a : Amount) : Text := a.toJson.literal

/-- Whether an amount may be shown. -/
def isWritable (a : Amount) : Bool := a.toJson.isWritable

/-- Whether an amount is less than a whole number. -/
def isBelow : Amount → Int → Bool
  | whole i, j => i < j
  | truth b, j => (b.toNat : Int) < j
  | real x, j => x.ltInt j

/-- Whether an amount is equal to a whole number. -/
def equals : Amount → Int → Bool
  | whole i, j => i = j
  | truth b, j => (b.toNat : Int) = j
  | real x, j => x.isInt j

/-- More than any number that can be read. -/
def boundless : Nat := Binary64.tenTo Numeral.digitLimit

/-- The greatest count that is not above an amount; zero if every count is. No count is above an infinite amount,
or above one that is no number. -/
def most : Amount → Nat
  | whole i => i.toNat
  | truth b => b.toNat
  | real x =>
    match x.truncate? with
    | some i => i.toNat
    | none => if x.ltInt 0 then 0 else boundless

/-- The least count that is not below an amount. Every count is below an infinite amount, and none is below one that
is no number. -/
def least : Amount → Nat
  | whole i => i.toNat
  | truth b => b.toNat
  | real x =>
    match x.truncate? with
    | some i => (if x.gtInt i then i + 1 else i).toNat
    | none => if x.gtInt 0 then boundless else 0

theorem ofJson_toJson (a : Amount) : ofJson a.toJson = .ok a := by
  cases a <;> rfl

theorem isWritable_whole (i : Int) : (whole i).isWritable = Numeral.isWritable i := rfl

theorem isBelow_whole (i j : Int) : (whole i).isBelow j = decide (i < j) := rfl

/-- Two and a half admits two levels at most and three elements at least. -/
example : (real (.finite false 5 (-1))).most = 2 ∧ (real (.finite false 5 (-1))).least = 3 := by decide

end Amount

end PayloadSchema
