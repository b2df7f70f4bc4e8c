import BanglaScript.Number

/-!
# The fewest decimal digits that read back

A finite positive double stands for every real that rounds to it.  These reals
form an interval around the double.  Its shortest decimal is a point of that
interval on the coarsest grid of powers of ten that has one; of two such
points the nearer one is taken, and of two equally near ones the larger.

Everything is computed exactly on natural numbers.
-/

namespace BanglaScript

/-- The decimal `digits * 10 ^ exponent`. -/
structure Decimal where
  digits : Nat
  exponent : Int
deriving DecidableEq

/-- The reals that round to one positive double.  All three points are counted
in units of `2 ^ unit`, and the end points belong to the interval exactly when
`closed` holds. -/
structure RoundingInterval where
  low : Nat
  value : Nat
  high : Nat
  unit : Int
  closed : Bool

namespace RoundingInterval

/-- The interval of a double `significand * 2 ^ scale`.  The gap below a power
of two is half the gap above it, unless the smallest scale is reached.  A real
half way between two doubles rounds to the even significand. -/
def ofNumber (number : Number) : RoundingInterval :=
  let middle := 4 * number.significand
  { low := if number.fraction = 0 ∧ 1 < number.exponentField then middle - 1 else middle - 2
    value := middle
    high := middle + 2
    unit := number.scale - 2
    closed := number.significand % 2 = 0 }

/-- The grid of multiples of `10 ^ exponent` in units of the interval: a point
`p` units above zero lies `p * numerator / denominator` grid steps above zero. -/
def numerator (interval : RoundingInterval) (exponent : Int) : Nat :=
  Nat.pow 2 interval.unit.toNat * Nat.pow 10 (-exponent).toNat

/-- The denominator that goes with `numerator`. -/
def denominator (interval : RoundingInterval) (exponent : Int) : Nat :=
  Nat.pow 2 (-interval.unit).toNat * Nat.pow 10 exponent.toNat

/-- The decimal `digits * 10 ^ exponent` lies in the interval. -/
def contains (interval : RoundingInterval) (digits : Nat) (exponent : Int) : Bool :=
  let point := digits * interval.denominator exponent
  let low := interval.low * interval.numerator exponent
  let high := interval.high * interval.numerator exponent
  if interval.closed then low ≤ point ∧ point ≤ high else low < point ∧ point < high

/-- The best decimal of the interval on the grid of `10 ^ exponent`.  If the
grid has a point in the interval, one of the two neighbours of the double is
such a point. -/
def onGrid? (interval : RoundingInterval) (exponent : Int) : Option Nat :=
  let scaled := interval.value * interval.numerator exponent
  let step := interval.denominator exponent
  let below := scaled / step
  let remainder := scaled % step
  match interval.contains below exponent, interval.contains (below + 1) exponent with
  | true, true => some (if 2 * remainder < step then below else below + 1)
  | true, false => some below
  | false, true => some (below + 1)
  | false, false => none

/-- A power of ten above every point of the interval. -/
def ceiling (interval : RoundingInterval) : Int :=
  ((interval.high.log2 : Int) + 1 + interval.unit) * 30103 / 100000 + 1

/-- Search finer and finer grids from `10 ^ exponent` on.  Seventeen digits
always suffice to read a double back, so a few more steps than that leave no
double without an answer. -/
def search (interval : RoundingInterval) : Nat → Int → Decimal
  | 0, exponent =>
    ⟨interval.value * interval.numerator exponent / interval.denominator exponent, exponent⟩
  | steps + 1, exponent =>
    match interval.onGrid? exponent with
    | some digits => ⟨digits, exponent⟩
    | none => interval.search steps (exponent - 1)

end RoundingInterval

/-- The shortest decimal of the magnitude of a finite number. -/
def Number.shortest (number : Number) : Decimal :=
  if number.isZero then ⟨0, 0⟩
  else
    let interval := RoundingInterval.ofNumber number
    interval.search 20 interval.ceiling

end BanglaScript
