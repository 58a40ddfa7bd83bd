import PayloadSchema.Number.Binary64

/-!
The fewest decimal digits that read back as a given binary64 number. The numbers that round to it form an
interval; grids of decimal numbers are tried from coarse to fine, and the first one with a point in the
interval gives the digits. Of two such points the nearer one is taken, of two equally near ones the even one.
-/
namespace PayloadSchema.Binary64.Shortest

/-- The quarters of the last mantissa bit that bound the interval of a number: its value is `4 * mantissa`
quarters. Below a power of two the neighbour is half as far away. -/
def lowerQuarter (mantissa : Nat) (exponent : Int) : Nat :=
  if mantissa = mantissaBound / 2 ∧ leastExponent < exponent then 4 * mantissa - 1 else 4 * mantissa - 2

def upperQuarter (mantissa : Nat) : Nat := 4 * mantissa + 2

/-- The grid of the multiples of `10 ^ power` beside the number `mantissa * 2 ^ exponent`. A point `c` of the
grid and `x` quarters of the last bit are compared as `c * point` with `x * quarter`. -/
structure Grid where
  quarter : Nat
  point : Nat

def gridAt (exponent power : Int) : Grid where
  quarter := twoTo (exponent - 2) * tenTo (-power)
  point := twoTo (2 - exponent) * tenTo power

/-- Whether the point `c` of the grid reads back as the number. The ends of the interval do when the mantissa
is even. -/
def Grid.reads (grid : Grid) (mantissa : Nat) (exponent : Int) (c : Nat) : Bool :=
  let low := lowerQuarter mantissa exponent * grid.quarter
  let high := upperQuarter mantissa * grid.quarter
  if mantissa % 2 = 0 then low ≤ c * grid.point && c * grid.point ≤ high
  else low < c * grid.point && c * grid.point < high

/-- The point of the grid that reads back and is nearest to the number, if there is one. -/
def Grid.nearest? (grid : Grid) (mantissa : Nat) (exponent : Int) : Option Nat :=
  let exact := 4 * mantissa * grid.quarter
  let below := exact / grid.point
  let above := below + 1
  match grid.reads mantissa exponent below, grid.reads mantissa exponent above with
  | false, false => none
  | true, false => some below
  | false, true => some above
  | true, true =>
    let down := exact - below * grid.point
    let up := above * grid.point - exact
    if down < up then some below
    else if up < down then some above
    else if below % 2 = 0 then some below else some above

/-- The first of the grids `10 ^ power`, `10 ^ (power - 1)`, … that has a point for the number. -/
def search (mantissa : Nat) (exponent : Int) : (grids : Nat) → (power : Int) → Option (Nat × Int)
  | 0, _ => none
  | grids + 1, power =>
    match (gridAt exponent power).nearest? mantissa exponent with
    | some c => some (c, power)
    | none => search mantissa exponent grids (power - 1)

/-- Moves the zeros at the end of the digits into the power of ten. -/
def dropZeros : (steps : Nat) → Nat → Int → Nat × Int
  | 0, digits, power => (digits, power)
  | steps + 1, digits, power =>
    if digits % 10 = 0 then dropZeros steps (digits / 10) (power + 1) else (digits, power)

/-- The digits and the power of ten of the shortest decimal that reads back as `mantissa * 2 ^ exponent`, for
a mantissa that is not zero. Seventeen digits always suffice; the first grid is at most two powers of ten
above the leading digit. -/
def decimal (mantissa : Nat) (exponent : Int) : Nat × Int :=
  let start := ((mantissa.log2 : Int) + 1 + exponent) * 30103 / 100000 + 1
  match search mantissa exponent 21 start with
  | some (digits, power) => dropZeros 21 digits power
  | none => (0, 0)

end PayloadSchema.Binary64.Shortest
