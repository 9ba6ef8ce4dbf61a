import DecimalScript.Decimal.Basic

/-!
# Rounding to integers

A number with a non-negative exponent is an integer and stays as it is, scale included. Any other
is rounded to an integer at scale zero, from its exact value and for coefficients of any length.
-/

namespace DecimalScript.Decimal

/-- Where rounding goes from between two integers. -/
inductive Rounding where
  /-- Towards negative infinity. -/
  | floor
  /-- Towards positive infinity. -/
  | ceiling
  /-- To the nearest integer, and from halfway away from zero. -/
  | halfAway
deriving DecidableEq

/-- The magnitude cut to an integer. -/
def cutMagnitude (coefficient places : Nat) : Nat :=
  (Numeral.shiftDown coefficient places).1

/-- The magnitude raised to the next integer, unless it is one. -/
def raisedMagnitude (coefficient places : Nat) : Nat :=
  let (whole, rest) := Numeral.shiftDown coefficient places
  if rest = 0 then whole else whole + 1

/-- The magnitude's nearest integer, from halfway the larger; `places` is not zero. One place is
kept, and half a unit of it decides. -/
def nearestMagnitude (coefficient places : Nat) : Nat :=
  (cutMagnitude coefficient (places - 1) + 5) / 10

/-- The number rounded to an integer. -/
def round (mode : Rounding) (d : Decimal) : Decimal :=
  if 0 ≤ d.exponent then d.withoutZeroSign
  else
    let places := (-d.exponent).toNat
    let magnitude := match mode, d.negative with
      | .floor, false | .ceiling, true => cutMagnitude d.coefficient places
      | .floor, true | .ceiling, false => raisedMagnitude d.coefficient places
      | .halfAway, _ => nearestMagnitude d.coefficient places
    withoutZeroSign ⟨d.negative, magnitude, 0⟩

end DecimalScript.Decimal
