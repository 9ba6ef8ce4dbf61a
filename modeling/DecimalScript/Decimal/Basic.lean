import DecimalScript.Decimal.Numeral

/-!
# Decimal numbers

A decimal is a sign, a coefficient and an exponent of ten, of any size. The exponent is part of the
number: `1.50` and `1.5` are equal in value and differ in scale, and arithmetic says which scale a
result has. A zero read from text may carry a sign; the results of arithmetic never do.
-/

namespace DecimalScript

/-- The number `± coefficient * 10 ^ exponent`. -/
structure Decimal where
  negative : Bool
  coefficient : Nat
  exponent : Int
deriving DecidableEq

namespace Decimal

/-- A natural number, at scale zero. -/
def ofNat (n : Nat) : Decimal :=
  ⟨false, n, 0⟩

/-- An integer times a power of ten. The sign of a zero is never negative. -/
def ofSigned (n : Int) (exponent : Int) : Decimal :=
  ⟨decide (n < 0), n.natAbs, exponent⟩

/-- The coefficient with its sign. -/
def signed (d : Decimal) : Int :=
  if d.negative then -(d.coefficient : Int) else d.coefficient

/-- Whether the number is zero, at any scale and of either sign. -/
def isZero (d : Decimal) : Bool :=
  d.coefficient == 0

/-- The number with no sign if it is zero, at the same scale. -/
def withoutZeroSign (d : Decimal) : Decimal :=
  if d.isZero then { d with negative := false } else d

/-- The signed coefficient of the number written at an exponent not above its own. The power of ten
is not formed for a zero. -/
def scaledTo (d : Decimal) (exponent : Int) : Int :=
  if d.isZero then 0 else d.signed * (Numeral.powerOfTen (d.exponent - exponent).toNat : Int)

/-- The power of ten of the leading digit. -/
def leadingExponent (d : Decimal) : Int :=
  d.exponent + (Numeral.digitCount d.coefficient : Int) - 1

end Decimal

end DecimalScript
