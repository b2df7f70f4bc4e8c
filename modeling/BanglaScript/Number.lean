/-!
# Double-precision numbers

The numbers of the language are IEEE 754 doubles.  A number is kept as its bit
pattern, so two numbers are equal exactly when they are the same datum: the
two zeros differ, and so do the NaNs of either sign.  Arithmetic goes through
`Float`, which rounds to nearest with ties to even.
-/

namespace BanglaScript

/-- A double, by its sixty-four bits. -/
structure Number where
  bits : UInt64
deriving DecidableEq

namespace Number

/-- The datum of a machine double. -/
def ofFloat (value : Float) : Number := ⟨value.toBits⟩

/-- The machine double with these bits. -/
def toFloat (number : Number) : Float := Float.ofBits number.bits

/-- The double nearest to a natural number; infinity past the largest double. -/
def ofNat (value : Nat) : Number := ofFloat (Float.ofNat value)

/-- The double nearest to an integer. -/
def ofInt (value : Int) : Number := ofFloat (Float.ofInt value)

/-- The sign bit is set.  This holds of negative zero and of some NaNs. -/
def isNegative (number : Number) : Bool := Nat.pow 2 63 ≤ number.bits.toNat

/-- The eleven exponent bits. -/
def exponentField (number : Number) : Nat := number.bits.toNat / Nat.pow 2 52 % Nat.pow 2 11

/-- The fifty-two fraction bits. -/
def fraction (number : Number) : Nat := number.bits.toNat % Nat.pow 2 52

/-- Neither an infinity nor a NaN. -/
def isFinite (number : Number) : Bool := number.exponentField ≠ 2047

/-- Not a number at all. -/
def isNaN (number : Number) : Bool :=
  number.exponentField = 2047 ∧ number.fraction ≠ 0

/-- One of the two zeros. -/
def isZero (number : Number) : Bool :=
  number.exponentField = 0 ∧ number.fraction = 0

/-- The whole significand `m` of a finite number of magnitude `m * 2 ^ q`. -/
def significand (number : Number) : Nat :=
  if number.exponentField = 0 then number.fraction else Nat.pow 2 52 + number.fraction

/-- The power of two `q` that goes with `significand`. -/
def scale (number : Number) : Int :=
  if number.exponentField = 0 then -1074 else (number.exponentField : Int) - 1075

/-- The rounded sum. -/
def add (lhs rhs : Number) : Number := ofFloat (lhs.toFloat + rhs.toFloat)

/-- The rounded difference. -/
def sub (lhs rhs : Number) : Number := ofFloat (lhs.toFloat - rhs.toFloat)

/-- The rounded product. -/
def mul (lhs rhs : Number) : Number := ofFloat (lhs.toFloat * rhs.toFloat)

/-- The rounded quotient. -/
def div (lhs rhs : Number) : Number := ofFloat (lhs.toFloat / rhs.toFloat)

/-- The exponent of a power of two from `2 ^ 0` up to `2 ^ 63`.  Such a double
has a clear sign bit, no fraction bits and a biased exponent from 1023 on. -/
def exponentOfTwo? (number : Number) : Option Nat :=
  if ¬ number.isNegative ∧ number.fraction = 0 ∧
      1023 ≤ number.exponentField ∧ number.exponentField ≤ 1086 then
    some (number.exponentField - 1023)
  else
    none

/-- A natural number that orders all data of the type: NaNs with the sign bit
first, then the numbers from minus to plus infinity with `-0` before `0`, then
the remaining NaNs. -/
def orderKey (number : Number) : Nat :=
  if number.isNegative then Nat.pow 2 64 - 1 - number.bits.toNat
  else Nat.pow 2 63 + number.bits.toNat

/-- The total order of the bit patterns. -/
def totalOrder (lhs rhs : Number) : Ordering := compare lhs.orderKey rhs.orderKey

end Number

end BanglaScript
