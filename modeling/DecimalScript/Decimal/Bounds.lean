import DecimalScript.Decimal.Basic

/-!
# Bounds

Decimals can be of any size; the numbers that a script reads and computes keep within bounds. The
leading digit may not stand beyond the largest power of ten, and no digit stands below the smallest
exponent. A number with digits below it is rounded there, from halfway to the even digit, and a zero
takes the nearest exponent within bounds. What would take more digits than the host can hold is
refused before it is formed.
-/

namespace DecimalScript

/-- Why a number is out of reach. -/
inductive Excess where
  /-- The leading digit is beyond the largest power of ten. -/
  | overflow
  /-- The operation is not defined on numbers so far apart. -/
  | undefinedResult
  /-- The number or its text has more digits than can be held. -/
  | tooLong
  /-- An integer has more digits than the host writes. -/
  | unshowable
deriving DecidableEq

/-- The wording of an excess. -/
def Excess.message : Excess → String
  | overflow => "number too large"
  | undefinedResult => "operation not defined on numbers of such sizes"
  | tooLong => "number has too many digits"
  | unshowable => Numeral.tooManyDigits ""

namespace Decimal

/-- The largest power of ten that a leading digit may have. -/
def maxLeadingExponent : Int := 999999999999999999

/-- The smallest exponent that a number may have. -/
def minExponent : Int := -1999999999999999997

/-- Whether the exponents of a number are within bounds. -/
def inBounds (d : Decimal) : Bool :=
  decide (d.leadingExponent ≤ maxLeadingExponent) && decide (minExponent ≤ d.exponent)

/-- Whether a number is found within bounds without counting its digits: it has no more digits than
bits. -/
def surelyInBounds (d : Decimal) : Bool :=
  decide (d.exponent + (d.coefficient.log2 : Int) ≤ maxLeadingExponent) &&
    decide (minExponent ≤ d.exponent)

/-- The magnitude cut by a number of places and rounded to the nearest, from halfway to the even
one. -/
def roundedEven (coefficient places : Nat) : Nat :=
  let (whole, rest) := Numeral.shiftDown coefficient places
  if Numeral.digitCount rest < places then whole
  else
    match compare (2 * rest) (Numeral.powerOfTen places) with
    | .lt => whole
    | .eq => whole + whole % 2
    | .gt => whole + 1

/-- The number brought within bounds. -/
def confined (d : Decimal) : Except Excess Decimal :=
  if d.surelyInBounds then .ok d
  else if d.isZero then
    .ok { d with exponent := max minExponent (min d.exponent maxLeadingExponent) }
  else if maxLeadingExponent < d.leadingExponent then .error .overflow
  else if d.exponent < minExponent then
    let places := (minExponent - d.exponent).toNat
    .ok (withoutZeroSign ⟨d.negative, roundedEven d.coefficient places, minExponent⟩)
  else .ok d

/-! ### What takes too many digits

How many digits the host can hold is a parameter, `maxDigits`. -/

/-- Whether plain notation of a number has no more digits than can be held. -/
def isWritable (maxDigits : Nat) (d : Decimal) : Bool :=
  d.isZero && decide (0 ≤ d.exponent) || decide (d.exponent.natAbs ≤ maxDigits)

/-- Why two numbers cannot be brought to one exponent: the one with the larger exponent would get
too many digits. A zero needs no digits. -/
def alignmentExcess? (maxDigits : Nat) (a b : Decimal) : Option Excess :=
  let larger := if a.exponent < b.exponent then b else a
  if larger.isZero || decide ((a.exponent - b.exponent).natAbs ≤ maxDigits) then none
  else some .tooLong

/-- Why there is no quotient. A zero that is divided needs no digits, but its exponent may not fall
below the smallest one. -/
def quotientExcess? (maxDigits : Nat) (a b : Decimal) : Option Excess :=
  if maxDigits < b.exponent.natAbs then some .tooLong
  else if a.isZero then
    if a.exponent - b.exponent < minExponent then some .undefinedResult else none
  else if maxDigits < a.exponent.natAbs then some .tooLong
  else none

/-- Why there is no remainder of a dividend that is not smaller than the divisor. -/
def remainderExcess? (maxDigits : Nat) (a b : Decimal) : Option Excess :=
  if maxLeadingExponent < a.leadingExponent - b.leadingExponent then some .undefinedResult
  else alignmentExcess? maxDigits a b

/-- Why there is no power with a natural exponent: its bits are at least the bits after the first of
the base, times the exponent. -/
def powerExcess? (maxDigits : Nat) (base : Decimal) (n : Nat) : Option Excess :=
  if 4 * maxDigits < n * base.coefficient.log2 then some .tooLong
  else if 4 * maxLeadingExponent < (base.exponent * n).natAbs then some .undefinedResult
  else none

end Decimal

end DecimalScript
