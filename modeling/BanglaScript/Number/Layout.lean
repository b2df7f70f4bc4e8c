import BanglaScript.Number.Shortest

/-!
# Writing numbers

The digits of a number are always the shortest ones.  A `Layout` decides how
they are set out: when an exponent is used, what follows a whole number and
how an infinity is spelled.
-/

namespace BanglaScript

/-- The choices left open once the digits of a number are known. -/
structure Layout where
  /-- The spelling of positive infinity. -/
  infinity : String
  /-- Written behind a whole number in positional notation. -/
  wholeSuffix : String
  /-- The powers of ten, from the first up to but excluding the second, whose
  numbers are written positionally; `none` when all are. -/
  positional : Option (Int × Int)

namespace Layout

/-- Zeros to fill a place. -/
def zeros (count : Nat) : String := String.ofList (List.replicate count '0')

/-- Positional notation, never with an exponent. -/
def writePositional (layout : Layout) (decimal : Decimal) : String :=
  let digits := Nat.toDigits 10 decimal.digits
  let point := (digits.length : Int) + decimal.exponent
  if 0 ≤ decimal.exponent then
    String.ofList digits ++ zeros decimal.exponent.toNat ++ layout.wholeSuffix
  else if 0 < point then
    String.ofList (digits.take point.toNat) ++ "." ++ String.ofList (digits.drop point.toNat)
  else
    "0." ++ zeros (-point).toNat ++ String.ofList digits

/-- One digit before the point and a power of ten. -/
def writeExponent (decimal : Decimal) : String :=
  let digits := Nat.toDigits 10 decimal.digits
  let power := (digits.length : Int) + decimal.exponent - 1
  let tail := if digits.length ≤ 1 then "" else "." ++ String.ofList (digits.drop 1)
  String.ofList (digits.take 1) ++ tail ++ "e" ++ toString power

/-- The text of a decimal. -/
def writeDecimal (layout : Layout) (decimal : Decimal) : String :=
  match layout.positional with
  | none => layout.writePositional decimal
  | some (first, last) =>
    let power := ((Nat.toDigits 10 decimal.digits).length : Int) + decimal.exponent - 1
    if decimal.digits = 0 ∨ (first ≤ power ∧ power < last) then
      layout.writePositional decimal
    else
      writeExponent decimal

/-- The text of a number.  A NaN has no sign; negative zero keeps its own. -/
def write (layout : Layout) (number : Number) : String :=
  if number.isNaN then "NaN"
  else
    let magnitude :=
      if number.isFinite then layout.writeDecimal number.shortest else layout.infinity
    if number.isNegative then "-" ++ magnitude else magnitude

end Layout

namespace Number

/-- The plain text of a number, as in outlines and token lists. -/
def plainText (number : Number) : String :=
  Layout.write ⟨"inf", "", none⟩ number

/-- The text of a number in instructions and in JavaScript. -/
def scriptText (number : Number) : String :=
  Layout.write ⟨"Infinity", "", none⟩ number

/-- The text of a number in the record form of a tree: whole numbers keep a
digit behind the point, and very large or small ones take an exponent. -/
def recordText (number : Number) : String :=
  Layout.write ⟨"inf", ".0", some (-4, 16)⟩ number

end Number

end BanglaScript
