import DecimalScript.Decimal.Notation
import DecimalScript.Decimal.Order

/-!
# Exact arithmetic

Every operation gives the exact result or fails; nothing is rounded. The scale of a result follows
from the scales of the operands: sums, differences and remainders have the smaller exponent, a
product has the sum of the exponents, and a quotient has the difference of the exponents unless the
exact quotient needs more digits. No result is a negative zero.
-/

namespace DecimalScript

/-- Why an operation on numbers has no result. -/
inductive ArithmeticFault where
  | divisionByZero
  | nonterminating (dividend divisor : Decimal)
  | fractionalExponent (exponent : Decimal)
  | negativeExponent (exponent : Decimal)
  | exponentOutOfRange (exponent : Decimal) (limit : Int)
deriving DecidableEq

/-- The wording of a fault. -/
def ArithmeticFault.message : ArithmeticFault → String
  | .divisionByZero => "division by zero"
  | .nonterminating a b => "non-terminating decimal expansion for " ++ a.plain ++ " / " ++ b.plain
  | .fractionalExponent x => "exponent must be an integer, got " ++ x.plain
  | .negativeExponent x => "exponent must be non-negative, got " ++ x.plain
  | .exponentOutOfRange x limit =>
    "exponent " ++ x.plain ++ " is out of range (limit " ++
      String.ofList (Numeral.signedNumeral limit) ++ ")"

namespace Decimal

/-- The number of opposite sign, at the same scale. -/
def negate (a : Decimal) : Decimal :=
  withoutZeroSign { a with negative := !a.negative }

/-- The absolute value, at the same scale. -/
def abs (a : Decimal) : Decimal :=
  { a with negative := false }

/-- The sum, at the smaller exponent. -/
def add (a b : Decimal) : Decimal :=
  let exponent := min a.exponent b.exponent
  ofSigned (a.scaledTo exponent + b.scaledTo exponent) exponent

/-- The difference, at the smaller exponent. -/
def subtract (a b : Decimal) : Decimal :=
  let exponent := min a.exponent b.exponent
  ofSigned (a.scaledTo exponent - b.scaledTo exponent) exponent

/-- The product, at the sum of the exponents. -/
def multiply (a b : Decimal) : Decimal :=
  ofSigned (a.signed * b.signed) (a.exponent + b.exponent)

/-- Whether a number is nearer to zero than another. -/
def isSmaller (a b : Decimal) : Bool :=
  a.abs.cmp b.abs == .lt

/-- What is left of the dividend after the quotient, cut toward zero, at the smaller exponent. A
remainder that is not zero has the sign of the dividend, and a dividend that is smaller than the
divisor is its own remainder. -/
def remainder (a b : Decimal) : Except ArithmeticFault Decimal :=
  let exponent := min a.exponent b.exponent
  if b.isZero then .error .divisionByZero
  else if a.isSmaller b then .ok (ofSigned (a.scaledTo exponent) exponent)
  else .ok (ofSigned ((a.scaledTo exponent).tmod (b.scaledTo exponent)) exponent)

/-! ### Quotients -/

/-- Divides a number by `p` as often as it goes; gives how often, added to `count`, and what is
left. -/
def factorOut (p n count : Nat) : Nat × Nat :=
  if 1 < p ∧ 0 < n ∧ n % p = 0 then factorOut p (n / p) (count + 1) else (count, n)
termination_by n
decreasing_by
  rename_i h
  exact Nat.div_lt_self h.2.1 h.1

/-- The number of decimal places that fractions with this denominator need, if they terminate: a
denominator in lowest terms may have no factors but two and five. -/
def decimalPlaces? (denominator : Nat) : Option Nat :=
  let (twos, odd) := factorOut 2 denominator 0
  let (fives, rest) := factorOut 5 odd 0
  if rest = 1 then some (max twos fives) else none

/-- The exact quotient. It has the difference of the exponents, or as many more places as its digits
need; a zero has no positive exponent. -/
def divide (a b : Decimal) : Except ArithmeticFault Decimal :=
  if b.isZero then .error .divisionByZero
  else
    let exponent := a.exponent - b.exponent
    if a.isZero then .ok ⟨false, 0, min exponent 0⟩
    else
      let common := Nat.gcd a.coefficient b.coefficient
      let denominator := b.coefficient / common
      match decimalPlaces? denominator with
      | none => .error (.nonterminating a b)
      | some places =>
        let coefficient := a.coefficient / common * (Numeral.powerOfTen places / denominator)
        .ok ⟨a.negative != b.negative, coefficient, exponent - places⟩

/-! ### Powers -/

/-- The power of a coefficient. Zero and one need no multiplications, however large the exponent. -/
def coefficientPower (coefficient n : Nat) : Nat :=
  if coefficient ≤ 1 then if n = 0 then 1 else coefficient else Nat.pow coefficient n

/-- The power with a natural exponent, at the exponent's multiple of the scale. Odd powers of
negative numbers are negative. -/
def natPower (base : Decimal) (n : Nat) : Decimal :=
  withoutZeroSign
    ⟨base.negative && n % 2 == 1, coefficientPower base.coefficient n, base.exponent * n⟩

/-- The natural number of an exponent, which has to be integral in value, not negative and at most
`limit`. -/
def powerIndex (exponent : Decimal) (limit : Int) : Except ArithmeticFault Nat :=
  if !exponent.isIntegral then .error (.fractionalExponent exponent)
  else if exponent.cmp (ofNat 0) = .lt then .error (.negativeExponent exponent)
  else if exponent.cmp (ofSigned limit 0) = .gt then .error (.exponentOutOfRange exponent limit)
  else .ok exponent.toInt.toNat

/-- The power with an exponent that is integral in value, not negative and at most `limit`. -/
def power (base exponent : Decimal) (limit : Int) : Except ArithmeticFault Decimal :=
  (powerIndex exponent limit).map base.natPower

end Decimal

end DecimalScript
