import DecimalScript.Decimal.Basic

/-!
# Order of decimals

Decimals are ordered by value, whatever their scales: `1.50` and `1.5` compare equal, and so do the
two zeros. Numbers of different scales whose leading digits stand at different powers of ten are
told apart by that alone, so that two numbers are brought to one scale only if they are of about the
same size.
-/

namespace DecimalScript.Decimal

/-- The order of two numbers written at one scale. -/
def compareScaled (a b : Decimal) : Ordering :=
  let exponent := min a.exponent b.exponent
  compare (a.scaledTo exponent) (b.scaledTo exponent)

/-- The order of two numbers by value. -/
def cmp (a b : Decimal) : Ordering :=
  if a.exponent = b.exponent then compare a.signed b.signed
  else if a.isZero || b.isZero || a.negative != b.negative then compare a.signed.sign b.signed.sign
  else match compare a.leadingExponent b.leadingExponent with
    | .eq => compareScaled a b
    | order => if a.negative then order.swap else order

/-- Whether the number is an integer, at any scale. -/
def isIntegral (d : Decimal) : Bool :=
  decide (0 ≤ d.exponent) || (Numeral.shiftDown d.coefficient (-d.exponent).toNat).2 == 0

/-- The value of an integral number; digits after the point are dropped from any other. -/
def toInt (d : Decimal) : Int :=
  let magnitude :=
    if d.isZero then 0
    else if 0 ≤ d.exponent then d.coefficient * Numeral.powerOfTen d.exponent.toNat
    else (Numeral.shiftDown d.coefficient (-d.exponent).toNat).1
  if d.negative then -(magnitude : Int) else magnitude

end DecimalScript.Decimal
